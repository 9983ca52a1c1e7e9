import Mathlib.Data.List.TakeWhile

/-!
# Wff.Proofs.Lists — runs at the front of a list, and functions that can fail on a list

Words, runs of marks and chains all take as much as they can from the front of a list.  `Stops p l`
says that nothing of `l` would be taken; then a run is the same with `l` behind it as without.
-/

namespace Wff

variable {α β ε : Type}

/-! ### Runs -/

/-- A run of `p` cannot go on with the list. -/
def Stops (p : α → Bool) (l : List α) : Prop := ∀ x ∈ l.head?, p x = false

@[simp] theorem stops_nil (p : α → Bool) : Stops p [] := by
  intro x hx
  cases hx

@[simp] theorem stops_cons {p : α → Bool} {x : α} {l : List α} :
    Stops p (x :: l) ↔ p x = false := by
  simp [Stops]

@[simp] theorem stops_false (l : List α) : Stops (fun _ => false) l := fun _ _ => rfl

theorem stops_dropWhile (p : α → Bool) (l : List α) : Stops p (l.dropWhile p) := by
  intro x hx
  have := List.head?_dropWhile_not p l
  rwa [Option.mem_def.mp hx] at this

theorem Stops.takeWhile_append {p : α → Bool} {l : List α} (h : Stops p l) (run : List α) :
    (run ++ l).takeWhile p = run.takeWhile p := by
  induction run with
  | nil =>
    cases l with
    | nil => rfl
    | cons x l =>
      rw [stops_cons] at h
      simp [h]
  | cons x run ih => simp only [List.cons_append, List.takeWhile_cons, ih]

theorem Stops.dropWhile_append {p : α → Bool} {l : List α} (h : Stops p l) (run : List α) :
    (run ++ l).dropWhile p = run.dropWhile p ++ l := by
  induction run with
  | nil =>
    cases l with
    | nil => rfl
    | cons x l =>
      rw [stops_cons] at h
      simp [h]
  | cons x run ih =>
    simp only [List.cons_append, List.dropWhile_cons, ih]
    split <;> rfl

theorem takeWhile_append_of_dropWhile_ne_nil {p : α → Bool} {run : List α}
    (h : run.dropWhile p ≠ []) (l : List α) : (run ++ l).takeWhile p = run.takeWhile p := by
  have hlength : (run.takeWhile p).length ≠ run.length := by
    intro heq
    have hall := congrArg List.length (List.takeWhile_append_dropWhile (p := p) (l := run))
    rw [List.length_append, heq] at hall
    exact h (List.eq_nil_of_length_eq_zero (by omega))
  rw [List.takeWhile_append, if_neg hlength]

/-! ### Splits -/

/-- Where just one member of a list has a property, the list is split at it in one way only. -/
theorem append_cons_unique {p : α → Prop} {x x' : α} {a b a' b' : List α} (ha : ∀ y ∈ a, ¬ p y)
    (hb : ∀ y ∈ b, ¬ p y) (hx : p x') (h : a ++ x :: b = a' ++ x' :: b') :
    a = a' ∧ x = x' ∧ b = b' := by
  induction a generalizing a' with
  | nil =>
    cases a' with
    | nil =>
      obtain ⟨hhead, htail⟩ := List.cons_eq_cons.mp h
      exact ⟨rfl, hhead, htail⟩
    | cons y a' =>
      obtain ⟨-, htail⟩ := List.cons_eq_cons.mp h
      exact absurd hx (hb x' (by rw [htail]; simp))
  | cons y a ih =>
    cases a' with
    | nil =>
      obtain ⟨hhead, -⟩ := List.cons_eq_cons.mp h
      exact absurd hx (hhead ▸ ha y List.mem_cons_self)
    | cons z a' =>
      obtain ⟨rfl, htail⟩ := List.cons_eq_cons.mp h
      obtain ⟨rfl, hmid, hend⟩ := ih (fun w hw => ha w (List.mem_cons_of_mem _ hw)) htail
      exact ⟨rfl, hmid, hend⟩

/-! ### Functions that can fail -/

section Failing

variable {f : α → Except ε β}

theorem mapM_cons_eq_ok_iff {x : α} {xs : List α} {ys : List β} :
    (x :: xs).mapM f = .ok ys ↔ ∃ z zs, f x = .ok z ∧ xs.mapM f = .ok zs ∧ ys = z :: zs := by
  rw [List.mapM_cons]
  cases hx : f x with
  | error e => simp [bind, Except.bind]
  | ok z =>
    cases hxs : xs.mapM f with
    | error e => simp [bind, Except.bind]
    | ok zs => simp [bind, Except.bind, pure, Except.pure, eq_comm]

theorem mapM_append_eq_ok_iff {xs xs' : List α} {ys : List β} :
    (xs ++ xs').mapM f = .ok ys ↔
      ∃ zs zs', xs.mapM f = .ok zs ∧ xs'.mapM f = .ok zs' ∧ ys = zs ++ zs' := by
  induction xs generalizing ys with
  | nil => simp [pure, Except.pure]
  | cons x xs ih =>
    simp only [List.cons_append, mapM_cons_eq_ok_iff, ih]
    constructor
    · rintro ⟨z, _, hz, ⟨zs, zs', hzs, hzs', rfl⟩, rfl⟩
      exact ⟨z :: zs, zs', ⟨z, zs, hz, hzs, rfl⟩, hzs', rfl⟩
    · rintro ⟨_, zs', ⟨z, zs, hz, hzs, rfl⟩, hzs', rfl⟩
      exact ⟨z, zs ++ zs', hz, ⟨zs, zs', hzs, hzs', rfl⟩, rfl⟩

theorem map_eq_of_mapM {γ : Type} {g : α → γ} {g' : β → γ}
    (hkeep : ∀ x y, f x = .ok y → g' y = g x) {xs : List α} {ys : List β}
    (h : xs.mapM f = .ok ys) : ys.map g' = xs.map g := by
  induction xs generalizing ys with
  | nil =>
    cases h
    rfl
  | cons x xs ih =>
    obtain ⟨z, zs, hz, hzs, rfl⟩ := mapM_cons_eq_ok_iff.mp h
    rw [List.map_cons, List.map_cons, hkeep x z hz, ih hzs]

theorem exists_of_mem_mapM {xs : List α} {ys : List β} (h : xs.mapM f = .ok ys) {y : β}
    (hy : y ∈ ys) : ∃ x ∈ xs, f x = .ok y := by
  induction xs generalizing ys with
  | nil =>
    cases h
    cases hy
  | cons x xs ih =>
    obtain ⟨z, zs, hz, hzs, rfl⟩ := mapM_cons_eq_ok_iff.mp h
    rcases List.mem_cons.mp hy with rfl | hy
    · exact ⟨x, List.mem_cons_self, hz⟩
    · obtain ⟨x', hx', hy'⟩ := ih hzs hy
      exact ⟨x', List.mem_cons_of_mem _ hx', hy'⟩

theorem exists_of_mem_mapM_source {xs : List α} {ys : List β} (h : xs.mapM f = .ok ys) {x : α}
    (hx : x ∈ xs) : ∃ y ∈ ys, f x = .ok y := by
  obtain ⟨before, after, rfl⟩ := List.append_of_mem hx
  obtain ⟨_, _, -, hafter, rfl⟩ := mapM_append_eq_ok_iff.mp h
  obtain ⟨y, _, hy, -, rfl⟩ := mapM_cons_eq_ok_iff.mp hafter
  exact ⟨y, by simp, hy⟩

theorem exists_of_mapM_eq_append_cons {xs : List α} {ys zs : List β} {y : β}
    (h : xs.mapM f = .ok (ys ++ y :: zs)) :
    ∃ before x after, xs = before ++ x :: after ∧ before.mapM f = .ok ys ∧ f x = .ok y := by
  induction ys generalizing xs with
  | nil =>
    cases xs with
    | nil => cases h
    | cons x xs =>
      obtain ⟨_, _, hx, -, hsplit⟩ := mapM_cons_eq_ok_iff.mp h
      obtain ⟨rfl, -⟩ := List.cons_eq_cons.mp hsplit
      exact ⟨[], x, xs, rfl, rfl, hx⟩
  | cons w ys ih =>
    cases xs with
    | nil => cases h
    | cons x xs =>
      obtain ⟨_, _, hx, hxs, hsplit⟩ := mapM_cons_eq_ok_iff.mp h
      obtain ⟨rfl, rfl⟩ := List.cons_eq_cons.mp hsplit
      obtain ⟨before, x', after, rfl, hbefore, hx'⟩ := ih hxs
      exact ⟨x :: before, x', after, rfl, mapM_cons_eq_ok_iff.mpr ⟨w, ys, hx, hbefore, rfl⟩, hx'⟩

/-- The first failure on the list is the failure of the whole. -/
theorem mapM_eq_error_iff {xs : List α} {e : ε} :
    xs.mapM f = .error e ↔
      ∃ before x after ys, xs = before ++ x :: after ∧ before.mapM f = .ok ys ∧ f x = .error e := by
  induction xs with
  | nil => simp [pure, Except.pure]
  | cons x xs ih =>
    constructor
    · -- the first element fails, or the first failure is one of the rest
      intro h
      rw [List.mapM_cons] at h
      cases hx : f x with
      | error e' =>
        rw [hx] at h
        cases h
        exact ⟨[], x, xs, [], rfl, rfl, hx⟩
      | ok y =>
        rw [hx] at h
        cases hxs : xs.mapM f with
        | ok ys => rw [hxs] at h; cases h
        | error e' =>
          rw [hxs] at h
          cases h
          obtain ⟨before, x', after, ys, rfl, hbefore, hx'⟩ := ih.mp hxs
          exact ⟨x :: before, x', after, y :: ys, rfl,
            mapM_cons_eq_ok_iff.mpr ⟨y, ys, hx, hbefore, rfl⟩, hx'⟩
    · rintro ⟨before, x', after, ys, hsplit, hbefore, hx'⟩
      cases before with
      | nil =>
        cases hsplit
        rw [List.mapM_cons, hx']
        rfl
      | cons z before =>
        obtain ⟨rfl, rfl⟩ := List.cons_eq_cons.mp hsplit
        obtain ⟨y, zs, hx, hb, rfl⟩ := mapM_cons_eq_ok_iff.mp hbefore
        rw [List.mapM_cons, hx, ih.mpr ⟨before, x', after, zs, rfl, hb, hx'⟩]
        rfl

end Failing

end Wff
