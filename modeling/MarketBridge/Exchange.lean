import MarketBridge.Lib.Lts

/-!
# One connection, one request, one answer

What a session is for, without its coroutines: it listens for a request, works on it once, and hands answers
over to the client. A stop and a timeout of the listening may come at any moment; the timeout answers too.
`ρ` is the type of answers.
-/

namespace MarketBridge

/-- Whether the request is still awaited, has arrived, or is no longer of interest. -/
inductive Ear
  | listening | heard | closed
deriving DecidableEq, Repr

/-- The work on the request: none so far, an answer of it is due, has been handed over or will not come. -/
inductive Work
  | none | due | answered | dropped
deriving DecidableEq, Repr

/-- The work gives no answer: it has not been taken up or will not come to one. -/
def Work.IsFree (w : Work) : Prop := w = .none ∨ w = .dropped

instance (w : Work) : Decidable w.IsFree := inferInstanceAs (Decidable (_ ∨ _))

structure Exchange (ρ : Type*) where
  ear : Ear := .listening
  stopped : Bool := false
  work : Work := .none
  writing : Bool := false
  handed : List ρ := []
  clobbered : Bool := false

namespace Exchange

variable {ρ : Type*} {x y : Exchange ρ}

inductive Label
  | silent | hear | dispatch | drop | answer | timeout
deriving DecidableEq, Repr

/-- An answer is handed over; `w` says whether it is on its way afterwards. -/
def hand (x : Exchange ρ) (r : ρ) (w : Bool) : Exchange ρ :=
  { x with handed := x.handed ++ [r], clobbered := x.clobbered || x.writing, writing := w }

/-- Nothing is handed over and no work is taken up: writes end, a stop closes the ear. -/
structure Quiet (x y : Exchange ρ) : Prop where
  ear : y.ear = x.ear ∨ y.ear = .closed ∧ (x.ear = .heard → x.stopped = true)
  stopped : x.stopped = true → y.stopped = true
  work : y.work = x.work
  writing : y.writing = true → x.writing = true
  handed : y.handed = x.handed
  clobbered : y.clobbered = x.clobbered

theorem Quiet.refl (x : Exchange ρ) : x.Quiet x := ⟨.inl rfl, id, rfl, id, rfl, rfl⟩

theorem Quiet.of_running (h : x.Quiet y) (hs : y.stopped = false) : x.stopped = false :=
  Bool.eq_false_iff.2 fun hx => by simp [h.stopped hx] at hs

theorem Quiet.calm (h : x.Quiet y) {w : Bool} (hw : w = true → y.writing = true) :
    x.Quiet { y with writing := w } :=
  ⟨h.ear, h.stopped, h.work, fun hn => h.writing (hw hn), h.handed, h.clobbered⟩

inductive Step : Exchange ρ → Label → Exchange ρ → Prop
  | silent {x y : Exchange ρ} (h : x.Quiet y) : Step x .silent y
  | hear {x : Exchange ρ} (h : x.ear = .listening) : Step x .hear { x with ear := .heard }
  | dispatch {x : Exchange ρ} (h : x.ear = .heard) (hs : x.stopped = false) :
      Step x .dispatch { x with ear := .closed, work := .due }
  | drop {x : Exchange ρ} (h : x.work = .due) : Step x .drop { x with work := .dropped }
  | answer {x : Exchange ρ} (h : x.work = .due) (r : ρ) (w : Bool) :
      Step x .answer { x.hand r w with work := .answered }
  | timeout {x : Exchange ρ} (hs : x.stopped = false) (r : ρ) (w : Bool) :
      Step x .timeout { x.hand r w with stopped := true }

theorem work_eq_none (he : x.work ≠ .none → x.ear = .closed) (h : x.ear ≠ .closed) : x.work = .none :=
  by_contra fun hw => h (he hw)

/-! ### At most one answer -/

/-- The timeout answers only where the work gives no answer. -/
def Punctual (x : Exchange ρ) (l : Label) : Prop := l = .timeout → x.work.IsFree

structure Single (x : Exchange ρ) : Prop where
  one : x.handed.length ≤ 1
  intact : x.clobbered = false
  quiet : x.handed = [] → x.writing = false
  ear : x.work ≠ .none → x.ear = .closed
  due : x.work = .due → x.handed = []
  free : x.work.IsFree → x.stopped = false → x.handed = []

theorem Single.new : Single ({} : Exchange ρ) := by constructor <;> simp

theorem Single.quiet_step (hi : x.Single) (h : x.Quiet y) : y.Single where
  one := h.handed ▸ hi.one
  intact := h.clobbered ▸ hi.intact
  quiet hn := by
    have := hi.quiet (h.handed ▸ hn)
    exact Bool.eq_false_iff.2 fun hw => by simp [h.writing hw] at this
  ear hw := by
    rcases h.ear with he | ⟨he, -⟩
    · exact he ▸ hi.ear (h.work ▸ hw)
    · exact he
  due hw := h.handed ▸ hi.due (h.work ▸ hw)
  free hw hs := h.handed ▸ hi.free (h.work ▸ hw) (h.of_running hs)

theorem Single.hand (hi : x.Single) (hn : x.handed = []) (r : ρ) (w : Bool) :
    (x.hand r w).handed.length ≤ 1 ∧ (x.hand r w).clobbered = false := by
  simp [Exchange.hand, hn, hi.intact, hi.quiet hn]

theorem Single.step {l : Label} (hi : x.Single) (hg : Punctual x l) (h : Step x l y) : y.Single := by
  cases h with
  | silent h => exact hi.quiet_step h
  | hear h =>
    have hw := work_eq_none hi.ear (by simp [h])
    exact ⟨hi.one, hi.intact, hi.quiet, fun hw' => absurd hw hw', hi.due, hi.free⟩
  | dispatch h hs =>
    have hw := work_eq_none hi.ear (by simp [h])
    exact ⟨hi.one, hi.intact, hi.quiet, fun _ => rfl, fun _ => hi.free (.inl hw) hs, by simp [Work.IsFree]⟩
  | drop h =>
    exact ⟨hi.one, hi.intact, hi.quiet, fun _ => hi.ear (by simp [h]), by simp, fun _ _ => hi.due h⟩
  | answer h r w =>
    obtain ⟨ho, hc⟩ := hi.hand (hi.due h) r w
    exact ⟨ho, hc, by simp [Exchange.hand], fun _ => hi.ear (by simp [h]), by simp, by simp [Work.IsFree]⟩
  | timeout hs r w =>
    have hw := hg rfl
    obtain ⟨ho, hc⟩ := hi.hand (hi.free hw hs) r w
    refine ⟨ho, hc, by simp [Exchange.hand], hi.ear, fun h => ?_, by simp⟩
    rcases hw with hw | hw <;> simp [Exchange.hand, hw] at h

/-- A run without late timeouts hands at most one answer over, and hands it over whole. -/
theorem single_of_run {ls : List Label} (h : Lts.Run (Lts.Guarded Punctual Step) ({} : Exchange ρ) ls x) :
    x.Single :=
  h.invariant (fun _ _ _ hi h => hi.step h.1 h.2) .new

/-! ### At least one answer -/

structure Settled (ls : List Label) (x : Exchange ρ) : Prop where
  heard : .hear ∈ ls → x.ear = .heard ∨ x.ear = .closed ∧ (x.work = .none → x.stopped = true)
  ear : x.work ≠ .none → x.ear = .closed
  dropped : x.work = .dropped ↔ .drop ∈ ls
  waiting : x.work ≠ .answered → x.stopped = false → x.handed = []
  answered : x.work = .answered → x.handed ≠ []
  one : x.stopped = false → x.handed.length ≤ 1

theorem Settled.new : Settled [] ({} : Exchange ρ) := by constructor <;> simp

theorem Settled.quiet_step {ls : List Label} (hi : x.Settled ls) (h : x.Quiet y) :
    y.Settled (ls ++ [.silent]) where
  heard hm := by
    rcases hi.heard (by simpa using hm) with hx | ⟨hx, hs⟩
    · rcases h.ear with he | ⟨he, hx'⟩
      · exact .inl (he ▸ hx)
      · exact .inr ⟨he, fun _ => h.stopped (hx' hx)⟩
    · refine .inr ⟨?_, fun hw => h.stopped (hs (h.work ▸ hw))⟩
      rcases h.ear with he | ⟨he, -⟩
      · exact he ▸ hx
      · exact he
  ear hw := by
    rcases h.ear with he | ⟨he, -⟩
    · exact he ▸ hi.ear (h.work ▸ hw)
    · exact he
  dropped := by simpa [h.work] using hi.dropped
  waiting hw hs := h.handed ▸ hi.waiting (h.work ▸ hw) (h.of_running hs)
  answered hw := h.handed ▸ hi.answered (h.work ▸ hw)
  one hs := h.handed ▸ hi.one (h.of_running hs)

theorem Settled.step {ls : List Label} {l : Label} (hi : x.Settled ls) (h : Step x l y) :
    y.Settled (ls ++ [l]) := by
  have hkeep : l ≠ .drop → (.drop ∈ ls ++ [l] ↔ x.work = .dropped) := by
    intro hl
    simp [hi.dropped, Ne.symm hl]
  cases h with
  | silent h => exact hi.quiet_step h
  | hear h =>
    have hw := work_eq_none hi.ear (by simp [h])
    exact ⟨fun _ => .inl rfl, fun h => absurd hw h, (hkeep (by simp)).symm, hi.waiting, hi.answered, hi.one⟩
  | dispatch h hs =>
    have hw := work_eq_none hi.ear (by simp [h])
    exact ⟨fun _ => .inr ⟨rfl, by simp⟩, fun _ => rfl, by simp [hkeep, hw],
      fun _ => hi.waiting (by simp [hw]), by simp, hi.one⟩
  | drop h =>
    have he := hi.ear (by simp [h])
    exact ⟨fun _ => .inr ⟨he, by simp⟩, fun _ => he, by simp, fun _ => hi.waiting (by simp [h]), by simp, hi.one⟩
  | answer h r w =>
    have he := hi.ear (by simp [h])
    refine ⟨fun _ => .inr ⟨he, by simp⟩, fun _ => he, by simp [hkeep, h], by simp, fun _ => by simp [hand], ?_⟩
    -- the answer was due, so nothing has been handed over before
    exact fun hs => by simp [hand, hi.waiting (by simp [h]) hs]
  | timeout hs r w =>
    refine ⟨fun hm => ?_, hi.ear, (hkeep (by simp)).symm, by simp, fun _ => by simp [hand], by simp⟩
    rcases hi.heard (by simpa using hm) with he | ⟨he, -⟩
    · exact .inl he
    · exact .inr ⟨he, by simp⟩

theorem settled_of_run {ls : List Label} (h : Lts.Run Step ({} : Exchange ρ) ls x) : x.Settled ls :=
  h.trace_invariant .new fun _ _ _ _ hi h => hi.step h

/-- Once a request that no stop or timeout has cut off is settled, it has been answered or dropped. -/
theorem Settled.answered_iff {ls : List Label} (hi : x.Settled ls) (hh : .hear ∈ ls) (hs : x.stopped = false)
    (he : x.ear ≠ .heard) (hw : x.work ≠ .due) : x.handed ≠ [] ↔ .drop ∉ ls := by
  have hn : x.work ≠ .none := by
    rcases hi.heard hh with h | ⟨-, h⟩
    · exact absurd h he
    · intro hn
      have hstop := h hn
      simp [hs] at hstop
  rw [← hi.dropped]
  cases hx : x.work with
  | none => exact absurd hx hn
  | due => exact absurd hx hw
  | answered => simp [hi.answered hx]
  | dropped => simp [hi.waiting (by simp [hx]) hs]

end Exchange

end MarketBridge
