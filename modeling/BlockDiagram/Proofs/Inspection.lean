/-
Work that stops at the first defect.

A piece of work that goes over its material and stops at the first defect does not say what else is
wrong. What it reports depends on the order in which it goes over things, and where the work is put
together from passes, each with an order of its own, that order is nowhere to be seen in one piece.

Here it is put in one piece. Defects are found at places, and some places come before others. Work
inspects a set of places when it succeeds only if there is no defect at any of them, and otherwise
fails with a defect that comes before every other. Passes in sequence inspect their places together,
if those of the first come before those of the second, and so do the rounds of a loop.

A place may have several defects as long as the work does not get there. A document in which two
keys denote one id has two descriptions of that block, each with its own defects, and is refused
for the keys. So no place is asked to have one defect at most; the place that is reported is.
-/
import Mathlib.Data.List.Forall2
import Mathlib.Data.Set.Basic

set_option autoImplicit false

namespace BlockDiagram

variable {Place ε α β : Type} {before : Place → Place → Prop} {defect : Place → ε → Prop}

/-- Whether a result is that of inspecting places: there is no defect at any of them, or the one
reported is the only one at its place, which comes before all other places with defects. -/
def Inspects (before : Place → Place → Prop) (defect : Place → ε → Prop) (scope : Set Place)
    (result : Except ε α) : Prop :=
  match result with
  | .ok _ => ∀ p ∈ scope, ∀ e, ¬ defect p e
  | .error e => ∃ p ∈ scope, (∀ e', defect p e' ↔ e' = e) ∧
      ∀ q ∈ scope, ∀ e', defect q e' → q = p ∨ before p q

/-! ## Scopes -/

/-- Only places with defects matter to an inspection. -/
theorem Inspects.congr {scope scope' : Set Place} {result : Except ε α}
    (h : Inspects before defect scope result)
    (hsame : ∀ p e, defect p e → (p ∈ scope ↔ p ∈ scope')) :
    Inspects before defect scope' result := by
  cases result with
  | ok a =>
    intro p hp e hdefect
    exact h p ((hsame p e hdefect).2 hp) e hdefect
  | error e =>
    obtain ⟨p, hp, honly, hfirst⟩ := h
    refine ⟨p, (hsame p e ((honly e).2 rfl)).1 hp, honly, fun q hq e' hother => ?_⟩
    exact hfirst q ((hsame q e' hother).2 hq) e' hother

/-- An inspection may be told of in other places, if these have the same defects and order. -/
theorem Inspects.image {Place' : Type} {before' : Place' → Place' → Prop}
    {defect' : Place' → ε → Prop} {scope : Set Place} {result : Except ε α} (f : Place → Place')
    (h : Inspects before defect scope result)
    (hdefect : ∀ p e, defect' (f p) e ↔ defect p e)
    (hbefore : ∀ p q, before p q → before' (f p) (f q)) :
    Inspects before' defect' (f '' scope) result := by
  cases result with
  | ok a =>
    rintro _ ⟨p, hp, rfl⟩ e hother
    exact h p hp e ((hdefect p e).1 hother)
  | error e =>
    obtain ⟨p, hp, honly, hfirst⟩ := h
    refine ⟨f p, ⟨p, hp, rfl⟩, fun e' => (hdefect p e').trans (honly e'), ?_⟩
    rintro _ ⟨q, hq, rfl⟩ e' hother
    rcases hfirst q hq e' ((hdefect q e').1 hother) with rfl | hpq
    · exact .inl rfl
    · exact .inr (hbefore p q hpq)

/-- A result that fails exactly with the defects of one place inspects that place. -/
theorem inspects_singleton {p : Place} {result : Except ε α}
    (h : ∀ e, result = .error e ↔ defect p e) : Inspects before defect {p} result := by
  cases result with
  | ok a =>
    rintro _ rfl e hdefect
    cases (h e).2 hdefect
  | error e =>
    have honly (e' : ε) : defect p e' ↔ e' = e := by
      rw [← h e', Except.error.injEq, eq_comm]
    refine ⟨p, rfl, honly, ?_⟩
    rintro _ rfl e' -
    exact .inl rfl

/-! ## Sequences -/

theorem Inspects.map {scope : Set Place} {result : Except ε α} (f : α → β)
    (h : Inspects before defect scope result) : Inspects before defect scope (result.map f) := by
  cases result with
  | ok a => exact h
  | error e => exact h

/-- Two pieces of work in sequence inspect what both inspect. -/
theorem Inspects.bind {scope scope' : Set Place} {result : Except ε α} {next : α → Except ε β}
    (h : Inspects before defect scope result)
    (hnext : ∀ a, result = .ok a → Inspects before defect scope' (next a))
    (hbefore : ∀ p ∈ scope, ∀ q ∈ scope', before p q) :
    Inspects before defect (scope ∪ scope') (result >>= next) := by
  cases result with
  | error e =>
    -- the second piece is not reached, and whatever it would find comes later
    obtain ⟨p, hp, honly, hfirst⟩ := h
    refine ⟨p, .inl hp, honly, fun q hq e' hother => ?_⟩
    rcases hq with hq | hq
    · exact hfirst q hq e' hother
    · exact .inr (hbefore p hp q hq)
  | ok a =>
    have hrest := hnext a rfl
    show Inspects before defect (scope ∪ scope') (next a)
    cases hresult : next a with
    | ok b =>
      rw [hresult] at hrest
      intro p hp e hdefect
      rcases hp with hp | hp
      · exact h p hp e hdefect
      · exact hrest p hp e hdefect
    | error e =>
      rw [hresult] at hrest
      obtain ⟨p, hp, honly, hfirst⟩ := hrest
      refine ⟨p, .inr hp, honly, fun q hq e' hother => ?_⟩
      rcases hq with hq | hq
      · exact absurd hother (h q hq e')
      · exact hfirst q hq e' hother

/-! ## Loops -/

/-- Places of a list of things, given the places of each. -/
def placesOf (scope : α → Set Place) (xs : List α) : Set Place :=
  {p | ∃ x ∈ xs, p ∈ scope x}

theorem placesOf_cons (scope : α → Set Place) (x : α) (xs : List α) :
    placesOf scope (x :: xs) = scope x ∪ placesOf scope xs := by
  ext p
  simp [placesOf]

/-- What a loop has done so far is what every round of it does, one after the other. The invariant
is about the things that were gone over already, so a round may depend on all before it. -/
theorem foldlM_invariant {f : β → α → Except ε β} (Inv : List α → β → Prop) (done rest : List α)
    (hstep : ∀ earlier x later b b', done ++ rest = earlier ++ x :: later → Inv earlier b →
      f b x = .ok b' → Inv (earlier ++ [x]) b')
    {start last : β} (hstart : Inv done start) (h : rest.foldlM f start = .ok last) :
    Inv (done ++ rest) last := by
  induction rest generalizing done start with
  | nil =>
    cases h
    rw [List.append_nil]
    exact hstart
  | cons x rest ih =>
    rw [List.foldlM_cons] at h
    cases hround : f start x with
    | error e =>
      rw [hround] at h
      cases h
    | ok b =>
      rw [hround] at h
      have hnext := hstep done x rest start b rfl hstart hround
      rw [List.append_cons] at hstep ⊢
      exact ih (done ++ [x]) hstep hnext h

/-- A loop inspects what its rounds inspect, if the rounds go over the places in order. -/
theorem inspects_foldlM {f : β → α → Except ε β} (Inv : List α → β → Prop)
    {scope : α → Set Place} (done rest : List α)
    (hinspects : ∀ earlier x later b, done ++ rest = earlier ++ x :: later → Inv earlier b →
      Inspects before defect (scope x) (f b x))
    (hstep : ∀ earlier x later b b', done ++ rest = earlier ++ x :: later → Inv earlier b →
      f b x = .ok b' → Inv (earlier ++ [x]) b')
    (hbefore : rest.Pairwise fun x y => ∀ p ∈ scope x, ∀ q ∈ scope y, before p q)
    {start : β} (hstart : Inv done start) :
    Inspects before defect (placesOf scope rest) (rest.foldlM f start) := by
  induction rest generalizing done start with
  | nil =>
    rintro p ⟨x, hx, -⟩
    exact absurd hx List.not_mem_nil
  | cons x rest ih =>
    obtain ⟨hfirst, hrest⟩ := List.pairwise_cons.1 hbefore
    have hround := hinspects done x rest start rfl hstart
    rw [List.foldlM_cons, placesOf_cons]
    apply hround.bind
    · intro b hb
      have hnext := hstep done x rest start b rfl hstart hb
      rw [List.append_cons] at hinspects hstep
      exact ih (done ++ [x]) hinspects hstep hrest hnext
    · rintro p hp q ⟨y, hy, hq⟩
      exact hfirst y hy p hp q hq

theorem mapM_cons_eq (f : α → Except ε β) (x : α) (xs : List α) :
    (x :: xs).mapM f = f x >>= fun y => (xs.mapM f).map (y :: ·) := by
  rw [List.mapM_cons]
  cases f x with
  | error e => rfl
  | ok y => cases xs.mapM f <;> rfl

/-- A list of pieces of work inspects what they inspect, if they are in the order of the places. -/
theorem inspects_mapM {f : α → Except ε β} {scope : α → Set Place} {xs : List α}
    (hinspects : ∀ x ∈ xs, Inspects before defect (scope x) (f x))
    (hbefore : xs.Pairwise fun x y => ∀ p ∈ scope x, ∀ q ∈ scope y, before p q) :
    Inspects before defect (placesOf scope xs) (xs.mapM f) := by
  induction xs with
  | nil =>
    rintro p ⟨x, hx, -⟩
    exact absurd hx List.not_mem_nil
  | cons x xs ih =>
    obtain ⟨hfirst, hrest⟩ := List.pairwise_cons.1 hbefore
    rw [mapM_cons_eq, placesOf_cons]
    apply (hinspects x List.mem_cons_self).bind
    · intro y hy
      exact (ih (fun z hz => hinspects z (List.mem_cons_of_mem _ hz)) hrest).map _
    · rintro p hp q ⟨y, hy, hq⟩
      exact hfirst y hy p hp q hq

/-- A list of pieces of work succeeds with the results of all of them. -/
theorem mapM_eq_ok_iff {f : α → Except ε β} {xs : List α} {ys : List β} :
    xs.mapM f = .ok ys ↔ List.Forall₂ (fun x y => f x = .ok y) xs ys := by
  induction xs generalizing ys with
  | nil =>
    rw [List.mapM_nil, List.forall₂_nil_left_iff]
    constructor
    · intro h
      cases h
      rfl
    · rintro rfl
      rfl
  | cons x xs ih =>
    rw [mapM_cons_eq, List.forall₂_cons_left_iff]
    simp only [← ih]
    cases hx : f x with
    | error e =>
      constructor
      · intro h
        cases h
      · rintro ⟨y, rest, hy, -⟩
        cases hy
    | ok y =>
      constructor
      · intro h
        cases hxs : xs.mapM f with
        | error e =>
          rw [hxs] at h
          cases h
        | ok rest =>
          rw [hxs] at h
          cases h
          exact ⟨y, rest, rfl, rfl, rfl⟩
      · rintro ⟨_, rest, ⟨⟩, hrest, rfl⟩
        rw [hrest]
        rfl

/-- A search inspects the places of what it goes over, if it finds what has a defect. -/
theorem inspects_find? (bad : α → Bool) {place : α → Place} {error : α → ε} {xs : List α}
    {result : Except ε β} (hsome : ∀ x, xs.find? bad = some x → result = .error (error x))
    (hnone : xs.find? bad = none → ∃ b, result = .ok b)
    (hdefect : ∀ x ∈ xs, ∀ e, defect (place x) e ↔ bad x = true ∧ e = error x)
    (hbefore : xs.Pairwise fun x y => before (place x) (place y)) :
    Inspects before defect (placesOf (fun x => {place x}) xs) result := by
  cases hfind : xs.find? bad with
  | none =>
    obtain ⟨b, rfl⟩ := hnone hfind
    rintro _ ⟨x, hx, rfl⟩ e hother
    have hgood := List.find?_eq_none.1 hfind x hx
    exact hgood ((hdefect x hx e).1 hother).1
  | some x =>
    obtain ⟨hbad, earlier, later, rfl, hgood⟩ := List.find?_eq_some_iff_append.1 hfind
    have hx : x ∈ earlier ++ x :: later := by simp
    rw [hsome x hfind]
    refine ⟨place x, ⟨x, hx, rfl⟩, fun e' => ?_, ?_⟩
    · rw [hdefect x hx e', hbad, eq_self, true_and]
    · rintro _ ⟨y, hy, rfl⟩ e' hother
      have hbadY := ((hdefect y hy e').1 hother).1
      -- what stands earlier is in order, so the other defect is here or later
      rcases List.mem_append.1 hy with hy | hy
      · have hgoodY := hgood y hy
        simp [hbadY] at hgoodY
      rcases List.mem_cons.1 hy with rfl | hy
      · exact .inl rfl
      · have hrest := (List.pairwise_append.1 hbefore).2.1
        exact .inr ((List.pairwise_cons.1 hrest).1 y hy)

/-! ## The first defect -/

/-- Inspecting all places fails with the first defect and with nothing else, where no two places
come before each other. -/
theorem Inspects.eq_error_iff {result : Except ε α} (h : Inspects before defect Set.univ result)
    (hasymm : ∀ p q, before p q → ¬ before q p) {e : ε} :
    result = .error e ↔ ∃ p, defect p e ∧ ∀ q e', defect q e' → q = p ∨ before p q := by
  cases result with
  | ok a =>
    constructor
    · intro herror
      cases herror
    · rintro ⟨p, hdefect, -⟩
      exact absurd hdefect (h p trivial e)
  | error found =>
    obtain ⟨p, -, honly, hfirst⟩ := h
    constructor
    · rintro ⟨⟩
      exact ⟨p, (honly e).2 rfl, fun q e' hother => hfirst q trivial e' hother⟩
    · rintro ⟨q, hother, hleast⟩
      rcases hfirst q trivial e hother with rfl | hpq
      · rw [(honly e).1 hother]
      · -- the place found is the least one as well
        rcases hleast p found ((honly found).2 rfl) with rfl | hqp
        · rw [(honly e).1 hother]
        · exact absurd hqp (hasymm p q hpq)

/-- Inspecting all places fails exactly if there is a defect. -/
theorem Inspects.exists_error_iff {result : Except ε α}
    (h : Inspects before defect Set.univ result) :
    (∃ e, result = .error e) ↔ ∃ p e, defect p e := by
  cases result with
  | ok a =>
    constructor
    · rintro ⟨e, ⟨⟩⟩
    · rintro ⟨p, e, hdefect⟩
      exact absurd hdefect (h p trivial e)
  | error e =>
    obtain ⟨p, -, honly, -⟩ := h
    have hdefect := (honly e).2 rfl
    exact ⟨fun _ => ⟨p, e, hdefect⟩, fun _ => ⟨e, rfl⟩⟩

end BlockDiagram
