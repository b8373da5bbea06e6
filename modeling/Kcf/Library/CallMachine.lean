import Mathlib.Logic.Basic

/-! # Machines that answer calls

A call either does not return or gives an answer and moves the state. An
invariant kept by every guarded call holds along every run, and two states
that no single call can tell apart give the same answers for ever.
-/

namespace CallMachine

variable {σ κ α ε : Type*} {step : κ → σ → Except ε (α × σ)} {guard : κ → σ → Prop}

/-- A run of answered calls, each made in a state where the guard admits it. -/
inductive Run (step : κ → σ → Except ε (α × σ)) (guard : κ → σ → Prop) :
    σ → List (κ × α) → σ → Prop where
  | nil (s : σ) : Run step guard s [] s
  | cons {c : κ} {a : α} {s t u : σ} {tr : List (κ × α)} :
      guard c s → step c s = .ok (a, t) → Run step guard t tr u →
      Run step guard s ((c, a) :: tr) u

/-- What every guarded call with an admissible answer keeps, every run of such calls keeps. -/
theorem Run.invariant_of_answers {I : σ → Prop} {P : κ → α → Prop} {s t : σ} {tr : List (κ × α)}
    (hI : ∀ c s a t, I s → guard c s → P c a → step c s = .ok (a, t) → I t)
    (h : Run step guard s tr t) (hP : ∀ x ∈ tr, P x.1 x.2) (hs : I s) : I t := by
  induction h with
  | nil => exact hs
  | cons hg hc _ ih =>
    exact ih (fun x hx => hP x (.tail _ hx)) (hI _ _ _ _ hs hg (hP _ (.head _)) hc)

/-- What every guarded call keeps, every run keeps. -/
theorem Run.invariant {I : σ → Prop} {s t : σ} {tr : List (κ × α)}
    (hI : ∀ c s a t, I s → guard c s → step c s = .ok (a, t) → I t)
    (h : Run step guard s tr t) (hs : I s) : I t :=
  h.invariant_of_answers (P := fun _ _ => True) (fun c s a t hs hg _ hc => hI c s a t hs hg hc)
    (fun _ _ => trivial) hs

/-- The answers to a list of calls, up to the first that does not return, and how the list ends. -/
def answers (step : κ → σ → Except ε (α × σ)) : List κ → σ → List α × Except ε σ
  | [], s => ([], .ok s)
  | c :: cs, s =>
    match step c s with
    | .error e => ([], .error e)
    | .ok (a, t) => (a :: (answers step cs t).1, (answers step cs t).2)

/-- What every admissible call keeps, lists of them keep. -/
theorem answers_invariant {I : σ → Prop} {P : κ → Prop}
    (hstep : ∀ c s a t, P c → I s → step c s = .ok (a, t) → I t) {cs : List κ}
    (hcs : ∀ c ∈ cs, P c) {s t : σ} (hs : I s) (h : (answers step cs s).2 = .ok t) : I t := by
  induction cs generalizing s with
  | nil =>
    cases h
    exact hs
  | cons c cs ih =>
    rw [answers] at h
    rcases hc : step c s with e | ⟨a, u⟩
    · rw [hc] at h
      cases h
    · rw [hc] at h
      exact ih (fun d hd => hcs d (.tail _ hd)) (hstep c s a u (hcs c (.head _)) hs hc) h

/-- A list of calls does not return exactly when one of them does not where the calls before it
lead to. -/
theorem answers_error_iff {cs : List κ} {s : σ} {e : ε} :
    (answers step cs s).2 = .error e ↔
      ∃ ds c es t, cs = ds ++ c :: es ∧ (answers step ds s).2 = .ok t ∧ step c t = .error e := by
  induction cs generalizing s with
  | nil =>
    constructor
    · rintro ⟨⟩
    · rintro ⟨ds, c, es, t, h, -⟩
      exact absurd h (by simp)
  | cons c cs ih =>
    constructor
    · intro h
      rw [answers] at h
      rcases hc : step c s with e' | ⟨a, u⟩
      · rw [hc] at h
        cases h
        exact ⟨[], c, cs, s, rfl, rfl, hc⟩
      · rw [hc] at h
        obtain ⟨ds, d, es, t, rfl, ht, hd⟩ := ih.mp h
        refine ⟨c :: ds, d, es, t, rfl, ?_, hd⟩
        rw [answers, hc]
        exact ht
    · rintro ⟨ds, d, es, t, hsplit, ht, hd⟩
      cases ds with
      | nil =>
        obtain ⟨rfl, rfl⟩ := List.cons.inj hsplit
        cases ht
        rw [answers, hd]
      | cons b ds =>
        obtain ⟨rfl, rfl⟩ := List.cons.inj hsplit
        rw [answers] at ht ⊢
        rcases hc : step c s with e' | ⟨a, u⟩
        · rw [hc] at ht
          cases ht
        · rw [hc] at ht
          exact ih.mpr ⟨ds, d, es, t, rfl, ht, hd⟩

/-- Where an invariant tells when an admissible call does not return, it tells when lists of them
do not. -/
theorem answers_error_iff_of_step {I : σ → Prop} {P : κ → Prop} {Q : κ → σ → Prop} {e : ε}
    (hstep : ∀ c s a t, P c → I s → step c s = .ok (a, t) → I t)
    (herror : ∀ c s, P c → I s → (step c s = .error e ↔ Q c s)) {cs : List κ}
    (hcs : ∀ c ∈ cs, P c) {s : σ} (hs : I s) :
    (answers step cs s).2 = .error e ↔
      ∃ ds c es t, cs = ds ++ c :: es ∧ (answers step ds s).2 = .ok t ∧ Q c t := by
  rw [answers_error_iff]
  refine exists_congr fun ds => exists_congr fun c => exists_congr fun es => exists_congr fun t =>
    and_congr_right ?_
  rintro rfl
  refine and_congr_right fun ht => herror c t (hcs c (by simp)) ?_
  exact answers_invariant hstep (fun d hd => hcs d (List.mem_append_left _ hd)) hs ht

/-- Two outcomes of one call agree: the same failure, or the same answer and related states. -/
inductive Agree (R : σ → σ → Prop) : Except ε (α × σ) → Except ε (α × σ) → Prop where
  | error (e : ε) : Agree R (.error e) (.error e)
  | ok {a : α} {s t : σ} : R s t → Agree R (.ok (a, s)) (.ok (a, t))

/-- The ends of two lists of calls agree: the same failure, or related states. -/
inductive AgreeEnd (R : σ → σ → Prop) : Except ε σ → Except ε σ → Prop where
  | error (e : ε) : AgreeEnd R (.error e) (.error e)
  | ok {s t : σ} : R s t → AgreeEnd R (.ok s) (.ok t)

/-- Related states answer every list of calls alike. -/
theorem answers_agree {R : σ → σ → Prop}
    (hR : ∀ c s t, R s t → Agree R (step c s) (step c t)) (cs : List κ) {s t : σ}
    (h : R s t) :
    (answers step cs s).1 = (answers step cs t).1 ∧
      AgreeEnd R (answers step cs s).2 (answers step cs t).2 := by
  induction cs generalizing s t with
  | nil => exact ⟨rfl, .ok h⟩
  | cons c cs ih =>
    have hc := hR c s t h
    unfold answers
    generalize step c s = x at hc
    generalize step c t = y at hc
    cases hc with
    | error e => exact ⟨rfl, .error e⟩
    | ok hst =>
      obtain ⟨ha, he⟩ := ih hst
      exact ⟨by simp only [ha], he⟩

end CallMachine
