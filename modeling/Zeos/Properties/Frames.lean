import Zeos.Space.Leaks

set_option autoImplicit false

/-! Frames: none is lost unless the page table of a directory maps more than its last
task owns. -/

namespace Zeos

def Kernel.mappedAlive (k : Kernel) (frame : Nat) : Prop :=
  ∃ t d p, (k.tasks t).dirPagesBaseAddr = some d ∧ p < totalPages ∧
    (k.mm.getEntry d p).present = true ∧ k.mm.getFrame d p = frame

/-- `sys_exit` of the last task of a directory releases one reference to the frame of
every data and heap page that the page table maps. -/
def Kernel.exitReleases (k k' : Kernel) (home : DirId) : Prop :=
  ∃ pages : List Nat, pages.Nodup ∧
    (∀ p, p ∈ pages ↔ pagLogInitData ≤ p ∧ p ≤ pagLogInitHeap ∧
      (k.mm.getEntry home p).present = true) ∧
    k'.mm.physMem = (pages.foldl (fun m p => m.freeFrame (k.mm.getFrame home p)) k.mm).physMem ∧
    k'.mm.cowCountMem =
      (pages.foldl (fun m p => m.freeFrame (k.mm.getFrame home p)) k.mm).cowCountMem

structure Kernel.FramesKept (k : Kernel) : Prop where
  mapped : ∀ frame, numPagKernel ≤ frame → (∀ i < numPagCode, frame ≠ codeFrame i) →
    k.mm.physMem frame = USED_FRAME → k.mappedAlive frame
  released : ∀ home k', settledExit k (some (.call .exit)) →
    k.step (some (.call .exit)) = some k' → k.currentTask.dirPagesBaseAddr = some home →
    (∀ t, (k.tasks t).dirPagesBaseAddr = some home → t = k.current) → k.exitReleases k' home

/-- While every directory is left by a last task that owns all the data and heap pages it
maps, a frame in use that holds no code is mapped, and the last exit gives back all. -/
theorem no_frame_leaks {k : Kernel} (reached : Reachable settledExit k) : k.FramesKept := by
  constructor
  · intro frame kernel code used
    obtain ⟨d, p, maps⟩ := (reachable_held reached).mapped ⟨kernel, code, used⟩
    obtain ⟨⟨⟨t, here⟩, _, high⟩, present, same⟩ := Mm.table_maps.mp maps
    obtain ⟨_, _, heap, _⟩ := Mm.regions
    refine ⟨t, d, p, here, ?_, present, same⟩
    simp only [totalPages]
    omega
  · intro home k' settled stepped owner last
    obtain ⟨r, ref, sound⟩ := reachable_sound reached.any
    have running : k.stuck = false := by simpa using stuck_step stepped
    have laid := reachable_laid reached.any running
    obtain ⟨busy, turned⟩ := ref.last_exit sound stepped owner last
    obtain ⟨pages, distinct, listed, phys, cow⟩ :=
      Space.release_frames laid busy owner (settled home rfl owner last)
    obtain ⟨samePhys, sameCow⟩ := Space.frames_minors turned
    exact ⟨pages, distinct, listed, samePhys.trans phys, sameCow.trans cow⟩

theorem no_frame_leaks_exit :
    (Kernel.after (fun k label => decide (settledExit k label))
      [some (.call .fork), some (.call .exit)]).FramesKept := by
  apply no_frame_leaks
  apply (reached_after (by decide +kernel)).mono
  intro k label allowed
  exact of_decide_eq_true allowed

/-- The first task shares its directory with a clone, grows the heap and exits; when the
clone exits too, the frame of the heap page stays in use. -/
theorem thread_heap_leaks :
    let k := Kernel.after everyStep [some (.call (.clone 0x100000 0x109000 0)),
      some (.call (.sbrk 4096)), some (.call .exit), none, some (.call .exit)]
    Reachable anyAction k ∧ numPagKernel ≤ 312 ∧ (∀ i < numPagCode, 312 ≠ codeFrame i) ∧
      k.mm.physMem 312 = USED_FRAME ∧ ¬ k.mappedAlive 312 := by
  refine ⟨(reached_after (by decide +kernel)).any, by decide, by decide, by decide +kernel, ?_⟩
  intro mapped
  obtain ⟨t, d, p, here, below, maps⟩ := mapped
  have known : ∀ t d, ((Kernel.after everyStep [some (.call (.clone 0x100000 0x109000 0)),
      some (.call (.sbrk 4096)), some (.call .exit), none,
      some (.call .exit)]).tasks t).dirPagesBaseAddr = some d → ∀ p < totalPages,
      ¬ (((Kernel.after everyStep [some (.call (.clone 0x100000 0x109000 0)),
        some (.call (.sbrk 4096)), some (.call .exit), none,
        some (.call .exit)]).mm.getEntry d p).present = true ∧
      (Kernel.after everyStep [some (.call (.clone 0x100000 0x109000 0)),
        some (.call (.sbrk 4096)), some (.call .exit), none,
        some (.call .exit)]).mm.getFrame d p = 312) := by
    decide +kernel
  exact known t d here p below maps

end Zeos
