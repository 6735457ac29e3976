import Mathlib.Data.List.Basic

/-!
# Runs of a partial step function

A system is a step function on states that is undefined where an event is not enabled. A run feeds it
a list of events. The rules here are the ones every state machine of this development uses: what a
step keeps a run keeps, and a rank that productive events lower bounds how many of them a run has.
-/

namespace Best1307

variable {State Event : Type*} (step : State → Event → Option State)

/-- The state after a list of events, if each of them was enabled in turn. -/
def run : State → List Event → Option State
  | s, [] => some s
  | s, e :: events => (step s e).bind fun s' => run s' events

@[simp] theorem run_nil (s : State) : run step s [] = some s := rfl

theorem run_cons (s : State) (e : Event) (events : List Event) :
    run step s (e :: events) = (step s e).bind fun s' => run step s' events := rfl

theorem run_cons_eq_some {s t : State} {e : Event} {events : List Event} :
    run step s (e :: events) = some t ↔ ∃ s', step s e = some s' ∧ run step s' events = some t := by
  rw [run_cons, Option.bind_eq_some_iff]

theorem run_append (s : State) (left right : List Event) :
    run step s (left ++ right) = (run step s left).bind fun s' => run step s' right := by
  induction left generalizing s with
  | nil => rfl
  | cons e left ih =>
      rw [List.cons_append, run_cons, run_cons, Option.bind_assoc]
      exact congrArg _ (funext ih)

theorem run_append_eq_some {s t : State} {left right : List Event} :
    run step s (left ++ right) = some t ↔
      ∃ s', run step s left = some s' ∧ run step s' right = some t := by
  rw [run_append, Option.bind_eq_some_iff]

theorem run_snoc_eq_some {s t : State} {events : List Event} {e : Event} :
    run step s (events ++ [e]) = some t ↔ ∃ s', run step s events = some s' ∧ step s' e = some t := by
  rw [run_append_eq_some]
  simp only [run_cons_eq_some, run_nil, Option.some.injEq, exists_eq_right]

theorem run_some (f : State → Event → State) (s : State) (events : List Event) :
    run (fun s e => some (f s e)) s events = some (events.foldl f s) := by
  induction events generalizing s with
  | nil => rfl
  | cons e events ih => exact ih (f s e)

variable {step}

/-- Every event of the list is one `G` allows in the state it happens in. -/
def Along (step : State → Event → Option State) (G : State → Event → Prop) : State → List Event → Prop
  | _, [] => True
  | s, e :: events => G s e ∧ ∀ s', step s e = some s' → Along step G s' events

instance Along.decidable {G : State → Event → Prop} [∀ s e, Decidable (G s e)] :
    (s : State) → (events : List Event) → Decidable (Along step G s events)
  | _, [] => inferInstanceAs (Decidable True)
  | s, e :: events =>
      match h : step s e with
      | none => decidable_of_iff (G s e) (by simp only [Along, h, reduceCtorEq, false_implies, implies_true,
          and_true])
      | some s' =>
          have : Decidable (Along step G s' events) := Along.decidable s' events
          decidable_of_iff (G s e ∧ Along step G s' events)
            (by simp only [Along, h, Option.some.injEq, forall_eq'])

theorem along_congr {G H : State → Event → Prop} (h : ∀ s e, G s e ↔ H s e) {s : State} {events : List Event} :
    Along step G s events ↔ Along step H s events := by
  rw [show G = H from funext₂ fun s e => propext (h s e)]

/-- Two ways to allow events that agree where what is allowed keeps an invariant. -/
theorem along_iff_of_invariant (Inv : State → Prop) {G H : State → Event → Prop}
    (h : ∀ s e, Inv s → (G s e ↔ H s e)) (hstep : ∀ s e s', Inv s → H s e → step s e = some s' → Inv s')
    {s : State} {events : List Event} (hinit : Inv s) : Along step G s events ↔ Along step H s events := by
  induction events generalizing s with
  | nil => exact Iff.rfl
  | cons e events ih =>
      simp only [Along, h s e hinit]
      refine and_congr_right fun he => forall_congr' fun s' => ?_
      exact imp_congr_right fun hs' => ih (hstep s e s' hinit he hs')

theorem along_snoc {G : State → Event → Prop} {s : State} {events : List Event} {e : Event} :
    Along step G s (events ++ [e]) ↔
      Along step G s events ∧ ∀ t, run step s events = some t → G t e := by
  induction events generalizing s with
  | nil => simp only [List.nil_append, Along, run_nil, Option.some.injEq, forall_eq', implies_true,
      and_true, true_and]
  | cons first rest ih =>
      simp only [List.cons_append, Along, ih, run_cons_eq_some]
      constructor
      · rintro ⟨hfirst, hrest⟩
        exact ⟨⟨hfirst, fun s' hs' => (hrest s' hs').1⟩, fun t ⟨s', hs', ht⟩ => (hrest s' hs').2 t ht⟩
      · rintro ⟨⟨hfirst, hrest⟩, hlast⟩
        exact ⟨hfirst, fun s' hs' => ⟨hrest s' hs', fun t ht => hlast t ⟨s', hs', ht⟩⟩⟩

theorem Along.append {G : State → Event → Prop} {s : State} {left right : List Event}
    (h : Along step G s (left ++ right)) :
    Along step G s left ∧ ∀ t, run step s left = some t → Along step G t right := by
  induction left generalizing s with
  | nil => exact ⟨trivial, fun t ht => Option.some.inj ht ▸ h⟩
  | cons e left ih =>
      refine ⟨⟨h.1, fun s' hs' => (ih (h.2 s' hs')).1⟩, fun t ht => ?_⟩
      obtain ⟨s', hs', hleft⟩ := (run_cons_eq_some step).mp ht
      exact (ih (h.2 s' hs')).2 t hleft

/-- If an allowed event is enabled and keeps the invariant, a run of allowed events ends with it. -/
theorem Along.exists_run_invariant (Inv : State → Prop) {G : State → Event → Prop}
    (hstep : ∀ s e, Inv s → G s e → ∃ s', step s e = some s' ∧ Inv s') {s : State} {events : List Event}
    (h : Along step G s events) (hinit : Inv s) : ∃ t, run step s events = some t ∧ Inv t := by
  induction events generalizing s with
  | nil => exact ⟨s, rfl, hinit⟩
  | cons e events ih =>
      obtain ⟨s', hs', hinv⟩ := hstep s e hinit h.1
      obtain ⟨t, ht, hfin⟩ := ih (h.2 s' hs') hinv
      exact ⟨t, (run_cons_eq_some step).mpr ⟨s', hs', ht⟩, hfin⟩

theorem Along.exists_run {G : State → Event → Prop} (henabled : ∀ s e, G s e → (step s e).isSome)
    {s : State} {events : List Event} (h : Along step G s events) : ∃ t, run step s events = some t := by
  obtain ⟨t, ht, -⟩ := h.exists_run_invariant (fun _ => True) (fun s e _ he => by
    obtain ⟨s', hs'⟩ := Option.isSome_iff_exists.mp (henabled s e he)
    exact ⟨s', hs', trivial⟩) trivial
  exact ⟨t, ht⟩

theorem Along.mono {G H : State → Event → Prop} (himp : ∀ s e, G s e → H s e) {s : State} {events : List Event}
    (h : Along step G s events) : Along step H s events := by
  induction events generalizing s with
  | nil => trivial
  | cons e events ih => exact ⟨himp s e h.1, fun s' hs' => ih (h.2 s' hs')⟩

theorem along_true {s : State} {events : List Event} : Along step (fun _ _ => True) s events := by
  induction events generalizing s with
  | nil => trivial
  | cons e events ih => exact ⟨trivial, fun _ _ => ih⟩

theorem along_and {G H : State → Event → Prop} {s : State} {events : List Event} :
    Along step (fun s e => G s e ∧ H s e) s events ↔ Along step G s events ∧ Along step H s events := by
  induction events generalizing s with
  | nil => exact iff_of_true trivial ⟨trivial, trivial⟩
  | cons e events ih =>
      simp only [Along, ih]
      constructor
      · intro h
        exact ⟨⟨h.1.1, fun s' hs' => (h.2 s' hs').1⟩, h.1.2, fun s' hs' => (h.2 s' hs').2⟩
      · intro h
        exact ⟨⟨h.1.1, h.2.1⟩, fun s' hs' => ⟨h.1.2 s' hs', h.2.2 s' hs'⟩⟩

theorem along_of_forall {G : State → Event → Prop} {s : State} {events : List Event}
    (h : ∀ e ∈ events, ∀ s, G s e) : Along step G s events := by
  induction events generalizing s with
  | nil => trivial
  | cons e events ih =>
      exact ⟨h e List.mem_cons_self s, fun _ _ => ih fun e' he' => h e' (List.mem_cons_of_mem e he')⟩

/-- What every allowed event keeps, every run of allowed events keeps. -/
theorem run_invariant_along (Inv : State → Prop) {G : State → Event → Prop}
    (hstep : ∀ s e s', Inv s → G s e → step s e = some s' → Inv s')
    {s t : State} {events : List Event} (halong : Along step G s events)
    (hinit : Inv s) (hrun : run step s events = some t) : Inv t := by
  induction events generalizing s with
  | nil =>
      obtain rfl := Option.some.inj hrun
      exact hinit
  | cons e events ih =>
      obtain ⟨s', hs', hrest⟩ := (run_cons_eq_some step).mp hrun
      exact ih (halong.2 s' hs') (hstep s e s' hinit halong.1 hs') hrest

theorem along_of_run (Inv : State → Prop) {G : State → Event → Prop}
    (hstep : ∀ s e s', Inv s → step s e = some s' → G s e ∧ Inv s')
    {s t : State} {events : List Event} (hinit : Inv s) (hrun : run step s events = some t) :
    Along step G s events := by
  induction events generalizing s with
  | nil => trivial
  | cons e events ih =>
      obtain ⟨s', hs', hrest⟩ := (run_cons_eq_some step).mp hrun
      refine ⟨(hstep s e s' hinit hs').1, fun s₁ hs₁ => ?_⟩
      obtain rfl := Option.some.inj (hs₁.symm.trans hs')
      exact ih (hstep s e s₁ hinit hs').2 hrest

/-- What every event keeps, every run keeps. -/
theorem run_invariant (Inv : State → Prop) (hstep : ∀ s e s', Inv s → step s e = some s' → Inv s')
    {s t : State} {events : List Event} (hinit : Inv s) (hrun : run step s events = some t) : Inv t :=
  run_invariant_along Inv (fun s e s' hs _ => hstep s e s' hs) along_true hinit hrun

/-! ### What must happen -/

/-- As long as only productive events are counted, a state with `P` is reached whichever of them happen,
and until then there is always one that can. -/
inductive Inevitable (step : State → Event → Option State) (Productive : State → Event → Prop)
    (P : State → Prop) : State → Prop where
  | here {s : State} (hs : P s) : Inevitable step Productive P s
  | ahead {s : State} (hsome : ∃ e s', Productive s e ∧ step s e = some s')
      (hall : ∀ e s', Productive s e → step s e = some s' → Inevitable step Productive P s') :
      Inevitable step Productive P s

/-- A rank that productive events lower makes their end inevitable. -/
theorem Inevitable.of_rank {Productive : State → Event → Prop} {P Inv : State → Prop} (rank : State → Nat)
    (henabled : ∀ s, Inv s → ¬ P s → ∃ e s', Productive s e ∧ step s e = some s')
    (hlower : ∀ s e s', Inv s → ¬ P s → Productive s e → step s e = some s' →
      Inv s' ∧ rank s' < rank s)
    {s : State} (hinit : Inv s) : Inevitable step Productive P s := by
  induction hrank : rank s using Nat.strongRecOn generalizing s with
  | _ n ih =>
      by_cases hP : P s
      · exact .here hP
      · refine .ahead (henabled s hinit hP) fun e s' he hs' => ?_
        obtain ⟨hinv', hless⟩ := hlower s e s' hinit hP he hs'
        exact ih (rank s') (hrank ▸ hless) hinv' rfl

end Best1307
