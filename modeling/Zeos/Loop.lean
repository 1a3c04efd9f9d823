set_option autoImplicit false

/-! The counted loop `for(int i = 0; i < n; ++i)` on a state, and its invariant
rule. -/

namespace Loop

universe u v

variable {σ : Type u}

/-- Run `body 0`, `body 1`, …, `body (n - 1)` in this order. -/
def upTo : Nat → (Nat → σ → σ) → σ → σ
  | 0, _, state => state
  | n + 1, body, state => body n (upTo n body state)

@[simp] theorem upTo_zero (body : Nat → σ → σ) (state : σ) : upTo 0 body state = state := rfl

@[simp] theorem upTo_succ (n : Nat) (body : Nat → σ → σ) (state : σ) :
    upTo (n + 1) body state = body n (upTo n body state) := rfl

/-- A loop invariant that may speak of the number of rounds done. -/
theorem upTo_invariant (n : Nat) (body : Nat → σ → σ) (state : σ) (inv : Nat → σ → Prop)
    (start : inv 0 state)
    (round : ∀ i current, i < n → inv i current → inv (i + 1) (body i current)) :
    inv n (upTo n body state) := by
  induction n with
  | zero => exact start
  | succ n ih =>
      exact round n _ (Nat.lt_succ_self n)
        (ih fun i current below => round i current (Nat.lt_succ_of_lt below))

/-- Two loops that keep a relation round by round. -/
theorem upTo_related {τ : Type u} (n : Nat) (body : Nat → σ → σ) (body' : Nat → τ → τ)
    (rel : σ → τ → Prop) {state : σ} {state' : τ} (start : rel state state')
    (round : ∀ i current current', i < n → rel current current' →
      rel (body i current) (body' i current')) :
    rel (upTo n body state) (upTo n body' state') := by
  induction n with
  | zero => exact start
  | succ n ih =>
      exact round n _ _ (Nat.lt_succ_self n)
        (ih fun i current current' below => round i current current' (Nat.lt_succ_of_lt below))

/-- What no round changes, the loop does not change. -/
theorem upTo_frame {τ : Type u} (n : Nat) (body : Nat → σ → σ) (state : σ) (read : σ → τ)
    (round : ∀ i current, i < n → read (body i current) = read current) :
    read (upTo n body state) = read state :=
  upTo_invariant n body state (fun _ current => read current = read state) rfl
    fun i current below same => (round i current below).trans same

/-- The loop as a fold over its counter. -/
theorem upTo_eq_foldl (n : Nat) (body : Nat → σ → σ) (state : σ) :
    upTo n body state = (List.range n).foldl (fun current i => body i current) state := by
  induction n with
  | zero => rfl
  | succ n ih =>
      rw [upTo_succ, ih, List.range_succ, List.foldl_append]
      rfl

/-- A fold over a list, with an invariant that may speak of the items done. -/
theorem foldl_invariant {α : Type v} (items : List α) (body : σ → α → σ) (state : σ)
    (inv : List α → σ → Prop) (start : inv [] state)
    (round : ∀ done item rest current, items = done ++ item :: rest → inv done current →
      inv (done ++ [item]) (body current item)) : inv items (items.foldl body state) := by
  have rule : ∀ rest done current, items = done ++ rest → inv done current →
      inv items (rest.foldl body current) := by
    intro rest
    induction rest with
    | nil =>
        intro done current whole holds
        rw [List.append_nil] at whole
        rw [whole]
        exact holds
    | cons item rest ih =>
        intro done current whole holds
        apply ih (done ++ [item])
        · rw [List.append_assoc]
          exact whole
        · exact round done item rest current whole holds
  exact rule items [] state rfl start

end Loop
