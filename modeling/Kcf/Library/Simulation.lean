import Mathlib.Data.List.Defs
import Kcf.Library.CallMachine

/-! # Machines that always answer

An abstract machine answers every call. A machine that can fail behaves like
one as long as each admissible call from related states gives the same answer
and relates the states again: then whole lists of calls answer alike, and none
of them fails.
-/

namespace CallMachine

variable {σ τ κ α ε : Type*} {step : κ → σ → Except ε (α × σ)} {reply : κ → τ → α × τ}

/-- The answers of a machine that always answers, and the state it ends in. -/
def replies (reply : κ → τ → α × τ) : List κ → τ → List α × τ
  | [], t => ([], t)
  | c :: cs, t =>
    let (a, t) := reply c t
    let (as, t) := replies reply cs t
    (a :: as, t)

@[simp] theorem replies_cons (c : κ) (cs : List κ) (t : τ) :
    replies reply (c :: cs) t =
      ((reply c t).1 :: (replies reply cs (reply c t).2).1,
        (replies reply cs (reply c t).2).2) := rfl

/-- A call of the concrete machine does what the abstract one does. -/
def Simulates (step : κ → σ → Except ε (α × σ)) (reply : κ → τ → α × τ) (R : τ → σ → Prop)
    (c : κ) (t : τ) (s : σ) : Prop :=
  ∃ s', step c s = .ok ((reply c t).1, s') ∧ R (reply c t).2 s'

/-- Where calls are simulated as long as a condition on the calls to come holds, so are lists of
them. -/
theorem answers_of_simulates_while {R : τ → σ → Prop} {P : List κ → τ → Prop}
    (hnext : ∀ c cs t, P (c :: cs) t → P cs (reply c t).2)
    (hstep : ∀ c cs t s, P (c :: cs) t → R t s → Simulates step reply R c t s) {cs : List κ}
    {t : τ} {s : σ} (hcs : P cs t) (h : R t s) :
    ∃ s', answers step cs s = ((replies reply cs t).1, .ok s') ∧ R (replies reply cs t).2 s' := by
  induction cs generalizing t s with
  | nil => exact ⟨s, rfl, h⟩
  | cons c cs ih =>
    obtain ⟨u, hu, hR⟩ := hstep c cs t s hcs h
    obtain ⟨s', hs', hend⟩ := ih (hnext c cs t hcs) hR
    refine ⟨s', ?_, hend⟩
    rw [answers, hu]
    dsimp only
    rw [hs']
    rfl

/-- Where admissible calls are simulated, so are lists of them. -/
theorem answers_of_simulates {R : τ → σ → Prop} {P : κ → Prop}
    (hstep : ∀ c t s, P c → R t s → Simulates step reply R c t s) {cs : List κ}
    (hcs : ∀ c ∈ cs, P c) {t : τ} {s : σ} (h : R t s) :
    ∃ s', answers step cs s = ((replies reply cs t).1, .ok s') ∧ R (replies reply cs t).2 s' :=
  answers_of_simulates_while (P := fun cs _ => ∀ c ∈ cs, P c)
    (fun _ _ _ hcs d hd => hcs d (.tail _ hd)) (fun c _ t s hcs => hstep c t s (hcs c (.head _)))
    hcs h

/-- What every admissible reply keeps, lists of them keep. -/
theorem replies_invariant {I : τ → Prop} {P : κ → Prop}
    (hstep : ∀ c t, P c → I t → I (reply c t).2) {cs : List κ} (hcs : ∀ c ∈ cs, P c) {t : τ}
    (h : I t) : I (replies reply cs t).2 := by
  induction cs generalizing t with
  | nil => exact h
  | cons c cs ih =>
    exact ih (fun d hd => hcs d (.tail _ hd)) (hstep c t (hcs c (.head _)) h)

end CallMachine
