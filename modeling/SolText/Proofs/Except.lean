import Mathlib.Data.List.Forall2

/-!
# Results that may be errors

How steps that can fail follow one another.

* `bind_eq_ok_iff`: two steps succeed when both do.
* `exists_foldlM_eq_ok`: **a loop whose every step succeeds from where the invariant holds succeeds,
  and the invariant holds at its end.**
* `foldlM_invariant`: what every step keeps holds at the end of a loop that succeeds.
* `foldlM_eq_error_iff`: a loop fails where a step fails that the loop has come to.
* `failure?_mapM`: **a list of steps fails as the first step does that fails.**
* `SucceedsIff`: a result is a value exactly if a condition holds. Steps succeed if all their conditions
  hold.
* `Agree`: two results are the same error, or values that are related. What is made step by step of
  results that agree agrees.
-/

namespace SolText

variable {ε α β σ : Type}

theorem bind_eq_ok_iff {x : Except ε α} {f : α → Except ε β} {b : β} :
    x >>= f = .ok b ↔ ∃ a, x = .ok a ∧ f a = .ok b := by
  constructor
  · intro h
    cases x with
    | error e => cases h
    | ok a => exact ⟨a, rfl, h⟩
  · rintro ⟨a, rfl, h⟩
    exact h

theorem map_eq_ok_iff {x : Except ε α} {f : α → β} {b : β} :
    x.map f = .ok b ↔ ∃ a, x = .ok a ∧ f a = b := by
  cases x with
  | error e => simp [Except.map]
  | ok a => simp [Except.map]

theorem mapError_eq_ok_iff {ε' : Type} {x : Except ε α} {f : ε → ε'} {a : α} :
    x.mapError f = .ok a ↔ x = .ok a := by
  cases x with
  | error e =>
    constructor
    · intro h; cases h
    · intro h; cases h
  | ok a =>
    constructor
    · intro h; cases h; rfl
    · intro h; cases h; rfl

theorem mapError_eq_error_iff {ε' : Type} {x : Except ε α} {f : ε → ε'} {error : ε'} :
    x.mapError f = .error error ↔ ∃ e, x = .error e ∧ f e = error := by
  cases x with
  | error e => simp [Except.mapError]
  | ok a => simp [Except.mapError]

theorem mapError_bind {ε' : Type} (g : ε → ε') (x : Except ε α) (f : α → Except ε β) :
    (x >>= f).mapError g = x.mapError g >>= fun a => (f a).mapError g := by
  cases x with
  | error e => rfl
  | ok a => rfl

theorem mapError_mapM {ε' : Type} (g : ε → ε') (f : α → Except ε β) (items : List α) :
    (items.mapM f).mapError g = items.mapM fun item => (f item).mapError g := by
  induction items with
  | nil => rfl
  | cons item rest ih =>
    rw [List.mapM_cons, List.mapM_cons, mapError_bind, ← ih]
    congr 1
    funext value
    rw [mapError_bind]
    rfl

theorem map_bind_pure {γ : Type} (x : Except ε α) (g : α → β) (f : β → γ) :
    (do return g (← x) : Except ε β).map f = x.map fun a => f (g a) := by
  cases x <;> rfl

/-- What is made of two results can be made of what is made of each. -/
theorem map_pair {α' β' γ δ : Type} {x : Except ε α} {y : Except ε β} {f : α → β → γ} {g : γ → δ}
    {h : α → α'} {k : β → β'} {op : α' → β' → δ} (hop : ∀ a b, g (f a b) = op (h a) (k b)) :
    (do return f (← x) (← y) : Except ε γ).map g = do return op (← x.map h) (← y.map k) := by
  cases x with
  | error e => rfl
  | ok a =>
    cases y with
    | error e => rfl
    | ok b => exact congrArg Except.ok (hop a b)

/-- A loop whose every step succeeds and keeps the invariant. The invariant speaks of the items that
the loop has gone through. -/
theorem exists_foldlM_eq_ok {step : σ → α → Except ε σ} {items : List α} {start : σ}
    (Inv : List α → σ → Prop) (hstart : Inv [] start)
    (hstep : ∀ before item after state, items = before ++ item :: after → Inv before state →
      ∃ next, step state item = .ok next ∧ Inv (before ++ [item]) next) :
    ∃ final, items.foldlM step start = .ok final ∧ Inv items final := by
  have key : ∀ rest before state, items = before ++ rest → Inv before state →
      ∃ final, rest.foldlM step state = .ok final ∧ Inv items final := by
    intro rest
    induction rest with
    | nil =>
      intro before state hitems hinv
      rw [List.append_nil] at hitems
      exact ⟨state, rfl, hitems ▸ hinv⟩
    | cons item rest ih =>
      intro before state hitems hinv
      obtain ⟨next, hnext, hinv'⟩ := hstep before item rest state hitems hinv
      obtain ⟨final, hfinal, hend⟩ := ih (before ++ [item]) next (by rw [hitems]; simp) hinv'
      refine ⟨final, ?_, hend⟩
      rw [List.foldlM_cons]
      exact bind_eq_ok_iff.2 ⟨next, hnext, hfinal⟩
  exact key items [] start rfl hstart

/-- What every step keeps holds at the end of a loop that succeeds. -/
theorem foldlM_invariant {step : σ → α → Except ε σ} {items : List α} {start final : σ}
    (Inv : List α → σ → Prop) (hstart : Inv [] start)
    (hstep : ∀ before item after state next, items = before ++ item :: after → Inv before state →
      step state item = .ok next → Inv (before ++ [item]) next)
    (h : items.foldlM step start = .ok final) : Inv items final := by
  have key : ∀ rest before state, items = before ++ rest → Inv before state →
      rest.foldlM step state = .ok final → Inv items final := by
    intro rest
    induction rest with
    | nil =>
      intro before state hitems hinv hrun
      rw [List.append_nil] at hitems
      cases hrun
      exact hitems ▸ hinv
    | cons item rest ih =>
      intro before state hitems hinv hrun
      rw [List.foldlM_cons] at hrun
      obtain ⟨next, hnext, hrun⟩ := bind_eq_ok_iff.1 hrun
      exact ih (before ++ [item]) next (by rw [hitems]; simp)
        (hstep before item rest state next hitems hinv hnext) hrun
  exact key items [] start rfl hstart h

/-! ### First failures -/

/-- **A loop fails where a step fails that the loop has come to.** -/
theorem foldlM_eq_error_iff {step : σ → α → Except ε σ} {items : List α} {start : σ} {error : ε} :
    items.foldlM step start = .error error ↔
      ∃ before item after state, items = before ++ item :: after ∧
        before.foldlM step start = .ok state ∧ step state item = .error error := by
  constructor
  · intro h
    induction items generalizing start with
    | nil => cases h
    | cons item rest ih =>
      rw [List.foldlM_cons] at h
      cases hitem : step start item with
      | error e =>
        rw [hitem] at h
        cases h
        exact ⟨[], item, rest, start, rfl, rfl, hitem⟩
      | ok next =>
        rw [hitem] at h
        obtain ⟨before, failing, after, state, rfl, hbefore, hfail⟩ := ih h
        refine ⟨item :: before, failing, after, state, rfl, ?_, hfail⟩
        rw [List.foldlM_cons, hitem]
        exact hbefore
  · rintro ⟨before, item, after, state, rfl, hbefore, hfail⟩
    rw [List.foldlM_append, hbefore]
    show (item :: after).foldlM step state = .error error
    rw [List.foldlM_cons, hfail]
    rfl

/-- The error of a result that is one. -/
def failure? : Except ε α → Option ε
  | .error error => some error
  | .ok _ => none

@[simp] theorem failure?_eq_some_iff {result : Except ε α} {error : ε} :
    failure? result = some error ↔ result = .error error := by
  cases result <;> simp [failure?]

theorem failure?_map (f : α → β) (result : Except ε α) :
    failure? (result.map f) = failure? result := by
  cases result <;> rfl

theorem failure?_bind_pure (f : α → β) (result : Except ε α) :
    failure? (result >>= fun a => pure (f a)) = failure? result := by
  cases result <;> rfl

/-- **A list of steps fails as the first step does that fails.** -/
theorem failure?_mapM (f : α → Except ε β) (items : List α) :
    failure? (items.mapM f) = items.findSome? fun item => failure? (f item) := by
  induction items with
  | nil => rfl
  | cons item rest ih =>
    rw [List.mapM_cons, List.findSome?_cons]
    cases f item with
    | error error => rfl
    | ok value =>
      show failure? (rest.mapM f >>= fun values => pure (value :: values)) = _
      rw [failure?_bind_pure, ih]
      rfl

/-- A list of steps fails with the error of one of them. -/
theorem mapM_eq_error {f : α → Except ε β} {items : List α} {error : ε}
    (h : items.mapM f = .error error) : ∃ item ∈ items, f item = .error error := by
  have hfirst := failure?_eq_some_iff.2 h
  rw [failure?_mapM] at hfirst
  obtain ⟨item, hitem, hf⟩ := List.exists_of_findSome?_eq_some hfirst
  exact ⟨item, hitem, failure?_eq_some_iff.1 hf⟩

/-- A value of a list of steps is the value of one of them. -/
theorem exists_of_mem_mapM {f : α → Except ε β} {items : List α} {values : List β} {value : β}
    (h : items.mapM f = .ok values) (hvalue : value ∈ values) : ∃ item ∈ items, f item = .ok value := by
  induction items generalizing values with
  | nil =>
    cases h
    exact absurd hvalue List.not_mem_nil
  | cons item rest ih =>
    rw [List.mapM_cons] at h
    obtain ⟨first, hfirst, h⟩ := bind_eq_ok_iff.1 h
    obtain ⟨others, hothers, h⟩ := bind_eq_ok_iff.1 h
    cases h
    rcases List.mem_cons.1 hvalue with rfl | hvalue
    · exact ⟨item, List.mem_cons_self, hfirst⟩
    · obtain ⟨other, hother, hf⟩ := ih hothers hvalue
      exact ⟨other, List.mem_cons_of_mem _ hother, hf⟩

/-! ### When results are values -/

/-- A result is a value exactly if a condition holds. -/
def SucceedsIff (x : Except ε α) (P : Prop) : Prop := (∃ a, x = .ok a) ↔ P

namespace SucceedsIff

variable {P Q : Prop} {x : Except ε α}

theorem ok (a : α) (h : P) : SucceedsIff (.ok a : Except ε α) P :=
  ⟨fun _ => h, fun _ => ⟨a, rfl⟩⟩

theorem error (e : ε) (h : ¬P) : SucceedsIff (.error e : Except ε α) P := by
  refine ⟨?_, fun hP => absurd hP h⟩
  rintro ⟨a, ha⟩
  cases ha

theorem holds {a : α} (h : SucceedsIff x P) (hx : x = .ok a) : P := h.1 ⟨a, hx⟩

theorem fails {e : ε} (h : SucceedsIff x P) (hx : x = .error e) : ¬P := by
  intro hP
  obtain ⟨a, ha⟩ := h.2 hP
  rw [hx] at ha
  cases ha

/-- Two steps succeed when both do. -/
theorem bind {f : α → Except ε β} (hx : SucceedsIff x P)
    (hf : ∀ a, x = .ok a → SucceedsIff (f a) Q) : SucceedsIff (x >>= f) (P ∧ Q) := by
  constructor
  · rintro ⟨b, h⟩
    obtain ⟨a, ha, hb⟩ := bind_eq_ok_iff.1 h
    exact ⟨hx.1 ⟨a, ha⟩, (hf a ha).1 ⟨b, hb⟩⟩
  · rintro ⟨hP, hQ⟩
    obtain ⟨a, ha⟩ := hx.2 hP
    obtain ⟨b, hb⟩ := (hf a ha).2 hQ
    exact ⟨b, bind_eq_ok_iff.2 ⟨a, ha, hb⟩⟩

theorem map {f : α → β} (hx : SucceedsIff x P) : SucceedsIff (x >>= fun a => pure (f a)) P := by
  have hboth : SucceedsIff (x >>= fun a => pure (f a)) (P ∧ True) :=
    hx.bind fun a _ => SucceedsIff.ok (f a) trivial
  rwa [and_true] at hboth

/-- A list of steps succeeds when every step does. -/
theorem mapM {f : α → Except ε β} {condition : α → Prop} {items : List α}
    (h : ∀ item ∈ items, SucceedsIff (f item) (condition item)) :
    SucceedsIff (items.mapM f) (∀ item ∈ items, condition item) := by
  induction items with
  | nil => exact SucceedsIff.ok [] (List.forall_mem_nil _)
  | cons item rest ih =>
    obtain ⟨hitem, hrest⟩ := List.forall_mem_cons.1 h
    rw [List.mapM_cons, List.forall_mem_cons]
    exact hitem.bind fun value _ => (ih hrest).map

end SucceedsIff

/-! ### Two results side by side -/

/-- Two results agree if they are the same error, or values that are related. -/
inductive Agree (R : α → β → Prop) : Except ε α → Except ε β → Prop where
  | ok {a : α} {b : β} : R a b → Agree R (.ok a) (.ok b)
  | error (error : ε) : Agree R (.error error) (.error error)

namespace Agree

variable {α' β' : Type} {R : α → β → Prop} {S : α' → β' → Prop} {x : Except ε α} {y : Except ε β}

theorem bind {f : α → Except ε α'} {g : β → Except ε β'} (h : Agree R x y)
    (hstep : ∀ a b, R a b → Agree S (f a) (g b)) : Agree S (x >>= f) (y >>= g) := by
  cases h with
  | ok hab => exact hstep _ _ hab
  | error e => exact .error e

/-- Two runs that start with the same step. -/
theorem bind_same {f : σ → Except ε α} {g : σ → Except ε β} {z : Except ε σ}
    (hstep : ∀ c, z = .ok c → Agree R (f c) (g c)) : Agree R (z >>= f) (z >>= g) := by
  cases z with
  | ok c => exact hstep c rfl
  | error e => exact .error e

/-- A result agrees with itself if its value is related to itself. -/
theorem same {R : α → α → Prop} (h : ∀ a, x = .ok a → R a a) : Agree R x x := by
  cases x with
  | ok a => exact .ok (h a rfl)
  | error e => exact .error e

theorem both (h : Agree R x y) :
    (∃ e, x = .error e ∧ y = .error e) ∨ ∃ a b, x = .ok a ∧ y = .ok b ∧ R a b := by
  cases h with
  | ok hab => exact .inr ⟨_, _, rfl, rfl, hab⟩
  | error e => exact .inl ⟨e, rfl, rfl⟩

/-- What comes of one of two runs that agree comes of the other. -/
theorem exists_left (h : Agree R x y) {b : β} (hy : y = .ok b) : ∃ a, x = .ok a ∧ R a b := by
  cases h with
  | ok hab => cases hy; exact ⟨_, rfl, hab⟩
  | error e => cases hy

theorem exists_right (h : Agree R x y) {a : α} (hx : x = .ok a) : ∃ b, y = .ok b ∧ R a b := by
  cases h with
  | ok hab => cases hx; exact ⟨_, rfl, hab⟩
  | error e => cases hx

theorem eq {x y : Except ε α} (h : Agree Eq x y) : x = y := by
  cases h with
  | ok hab => rw [hab]
  | error e => rfl

theorem exists_ok_iff (h : Agree R x y) : (∃ a, x = .ok a) ↔ ∃ b, y = .ok b := by
  constructor
  · rintro ⟨a, hx⟩
    obtain ⟨b, hy, -⟩ := h.exists_right hx
    exact ⟨b, hy⟩
  · rintro ⟨b, hy⟩
    obtain ⟨a, hx, -⟩ := h.exists_left hy
    exact ⟨a, hx⟩

theorem error_iff (h : Agree R x y) {e : ε} : x = .error e ↔ y = .error e := by
  cases h with
  | ok hab => simp
  | error e' => simp

theorem mapError {ε' : Type} (f : ε → ε') (h : Agree R x y) :
    Agree R (x.mapError f) (y.mapError f) := by
  cases h with
  | ok hab => exact .ok hab
  | error e => exact .error (f e)

/-- Loops agree if their steps do. -/
theorem foldlM {f : α → σ → Except ε α} {g : β → σ → Except ε β}
    (hstep : ∀ a b item, R a b → Agree R (f a item) (g b item)) (items : List σ) {a : α} {b : β}
    (hab : R a b) : Agree R (items.foldlM f a) (items.foldlM g b) := by
  induction items generalizing a b with
  | nil => exact .ok hab
  | cons item rest ih =>
    rw [List.foldlM_cons, List.foldlM_cons]
    exact (hstep a b item hab).bind fun _ _ => ih

/-- Lists of steps agree if the steps do. -/
theorem mapM₂ {τ : Type} {Q : σ → τ → Prop} {f : σ → Except ε α} {g : τ → Except ε β}
    {items : List σ} {others : List τ} (hitems : List.Forall₂ Q items others)
    (h : ∀ item other, Q item other → Agree R (f item) (g other)) :
    Agree (List.Forall₂ R) (items.mapM f) (others.mapM g) := by
  induction hitems with
  | nil => exact .ok .nil
  | cons hitem _ ih =>
    rw [List.mapM_cons, List.mapM_cons]
    refine (h _ _ hitem).bind fun a b hab => ?_
    refine ih.bind fun as bs hrest => ?_
    exact .ok (.cons hab hrest)

theorem mapM {f : σ → Except ε α} {g : σ → Except ε β} {items : List σ}
    (h : ∀ item ∈ items, Agree R (f item) (g item)) :
    Agree (List.Forall₂ R) (items.mapM f) (items.mapM g) := by
  have hsame : List.Forall₂ (fun item other => item = other ∧ item ∈ items) items items :=
    List.forall₂_same.2 fun item hitem => ⟨rfl, hitem⟩
  refine mapM₂ hsame ?_
  rintro item _ ⟨rfl, hitem⟩
  exact h item hitem

end Agree

/-- A result is made of another by a function if each value is made of the other. -/
theorem agree_eq_iff {f : β → α} {x : Except ε α} {y : Except ε β} :
    Agree (fun a b => a = f b) x y ↔ x = y.map f := by
  constructor
  · intro h
    cases h with
    | ok hab => rw [hab]; rfl
    | error e => rfl
  · rintro rfl
    cases y with
    | ok b => exact .ok rfl
    | error e => exact .error e

end SolText
