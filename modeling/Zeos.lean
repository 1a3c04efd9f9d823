import Zeos.Properties.Reads
import Zeos.Properties.Notes
import Zeos.Properties.Semaphores
import Zeos.Properties.Directories
import Zeos.Properties.Scheduling
import Zeos.Properties.Heap
import Zeos.Properties.Frames
import Zeos.Properties.Copy
import Zeos.Properties.Lists
import Zeos.Properties.Access
import Zeos.Properties.Write
import Zeos.Properties.Pids
import Zeos.Properties.Slices
import Zeos.Properties.Accounts
import Zeos.Properties.Disclosure
import Zeos.Properties.Decimal
import Zeos.Properties.Contexts
import Zeos.Properties.Counts
import Zeos.Properties.Bystanders
import Zeos.Properties.Translations
import Zeos.Properties.Forks
import Zeos.Properties.BootImage
import Zeos.Properties.Waiting
import Zeos.Properties.Isolation
import Zeos.Properties.Refinement
import Zeos.Properties.Screen
import Zeos.Properties.Integrity
import Zeos.Properties.SystemCalls
import Zeos.Ticks
import Zeos.Gates
import Zeos.Properties.Exclusion
import Zeos.Properties.Gates
