import MarketBridge.AcceptSpec

/-!
# How the listeners are taken down

A shutdown, the end of single-request mode and a failed accept take the listeners and the signal handler down
in an order of their own, each racing with the accepts that are pending. Each listener has a number of steps left
(`rank`), and whatever the order, either nothing has been taken down yet (`Intact`), or the signal handler is gone
and someone is about to close both acceptors (`Ending`).
-/

namespace MarketBridge

open Lts (Run Det Guarded)

/-! ### The steps that are left of the listeners -/

/-- A listener comes back to its loop with an accepted connection only. -/
def ListenerTask.rank : ListenerTask → Nat
  | accepting (.ready .success) => 9
  | handling => 8
  | loop => 7
  | starting => 6
  | accepting .pending => 5
  | accepting (.ready _) => 4
  | leaving => 3
  | uninstalling .http => 2
  | uninstalling .https => 1
  | returned => 0

namespace Listeners

variable {ι : Type} {s t : Listeners ι} {p q : Port}

def signalsRank : Option (Await ErrorCode) → Nat
  | some .pending => 3
  | some (.ready _) => 2
  | none => 0

def rank (s : Listeners ι) : Nat := (s.tasks .http).rank + (s.tasks .https).rank + signalsRank s.signals

/-- What an event puts in: an accepted connection. -/
def Event.gain : Event ι → Nat
  | .accepted .. => 5
  | _ => 0

/-- What an event takes from the rank: the signal handler has a call of `schedule_shutdown` to pay for. -/
def Event.price : Event ι → Nat
  | .runSignalHandler => 2
  | _ => 1

theorem rank_cancel_le (task : ListenerTask) : task.cancel.rank ≤ task.rank := by
  cases task with
  | accepting op =>
    cases op with
    | pending => simp [ListenerTask.cancel, Await.close, ListenerTask.rank]
    | ready => exact le_rfl
  | _ => exact le_rfl

theorem rank_start_le (isOpen : Bool) : (ListenerTask.accepting (.start isOpen .badDescriptor)).rank ≤ 5 := by
  cases isOpen <;> decide

theorem rank_ready_le (ec : ErrorCode) : (ListenerTask.accepting (.ready ec)).rank ≤ 9 := by
  cases ec <;> simp [ListenerTask.rank]

theorem rank_afterAccept (ec : ErrorCode) :
    (afterAccept ec).rank + 1 ≤ (ListenerTask.accepting (.ready ec)).rank := by
  cases ec <;> simp [afterAccept, ListenerTask.rank]

/-- The listener of one port goes on. -/
theorem rank_setTask {k : ListenerTask} {n : Nat} (h : k.rank + 1 ≤ (s.tasks p).rank + n) :
    (s.setTask p k).rank + 1 ≤ s.rank + n := by
  cases p <;>
    simp only [rank, setTask, Function.update_self, Function.update_of_ne, ne_eq, reduceCtorEq,
      not_false_eq_true] <;>
    omega

theorem rank_close_le (s : Listeners ι) (p : Port) : (s.close p).rank ≤ s.rank := by
  have hc := rank_cancel_le (s.tasks p)
  cases p <;>
    simp only [rank, close, Function.update_self, Function.update_of_ne, ne_eq, reduceCtorEq, not_false_eq_true] <;>
    omega

theorem rank_uninstallListener_le (s : Listeners ι) (p : Port) : (s.uninstallListener p).rank ≤ s.rank := by
  unfold uninstallListener
  split
  · exact rank_close_le s p
  · exact le_rfl

theorem signalsRank_close_le (signals : Option (Await ErrorCode)) :
    signalsRank (signals.map (·.close .operationAborted)) ≤ signalsRank signals := by
  rcases signals with _ | _ | _ <;> simp [Await.close, signalsRank]

/-- Closing an acceptor reaches a pending accept only. -/
theorem tasks_close {task : ListenerTask} (h : s.tasks p = task) (hn : task.cancel = task) (q : Port) :
    (s.close q).tasks p = task := by
  show Function.update s.tasks q (s.tasks q).cancel p = task
  rcases eq_or_ne p q with rfl | hne
  · rw [Function.update_self, h, hn]
  · rw [Function.update_of_ne hne, h]

theorem tasks_uninstallListener {task : ListenerTask} (h : s.tasks p = task) (hn : task.cancel = task) (q : Port) :
    (s.uninstallListener q).tasks p = task := by
  unfold uninstallListener
  split
  · exact tasks_close h hn q
  · exact h

section

variable [DecidableEq ι] {a : Event ι}

theorem Step.lowers (h : Step s a t) (ha : ∀ b, a ≠ .registry b) : t.rank + a.price ≤ s.rank + a.gain := by
  cases h with
  | leaveLoop h | enterLoop h =>
    refine rank_setTask ?_
    simp [h, ListenerTask.rank, Event.gain]
  | @startAccept p h =>
    refine rank_setTask ?_
    rw [h]
    exact Nat.succ_le_succ (rank_start_le (s.isOpen p))
  | @accepted p ec h =>
    refine rank_setTask ?_
    rw [h]
    exact Nat.succ_le_succ (rank_ready_le ec)
  | @resume p ec h =>
    refine rank_setTask ?_
    rw [h]
    exact rank_afterAccept ec
  | @dispatch p h =>
    refine rank_setTask (s := s) (k := if s.cfg.server.runMode = .SingleRequest then .leaving else .loop) ?_
    rw [h]
    split <;> simp [ListenerTask.rank, Event.gain]
  | @cancelSignals p h =>
    have hs : s.uninstallSignalsHandler.rank ≤ s.rank := by
      have hc := signalsRank_close_le s.signals
      simp only [rank, uninstallSignalsHandler]
      omega
    refine le_trans (rank_setTask (n := 0) ?_) (Nat.add_le_add_right hs 0)
    rw [show s.uninstallSignalsHandler.tasks p = .leaving from h]
    simp [ListenerTask.rank]
  | @uninstallHttp p h | @uninstallHttps p h =>
    have ht := tasks_uninstallListener h rfl
    have hl := rank_uninstallListener_le s
    refine le_trans (rank_setTask (n := 0) ?_) (Nat.add_le_add_right (hl _) 0)
    rw [ht]
    simp [ListenerTask.rank]
  | signal h =>
    simp only [rank, h, signalsRank, Event.price, Event.gain]
    omega
  | runSignalHandler h | dropSignalHandler h =>
    simp only [rank, h, signalsRank, Event.price, Event.gain]
    omega
  | closeAcceptors | registry => exact absurd rfl (ha _)

theorem Step.rank_closeAcceptors {k : Nat} (h : Step s (.registry (.closeAcceptors k)) t) : t.rank ≤ s.rank := by
  cases h with
  | @closeAcceptors k r =>
    have hhttps := rank_close_le (close { s with registry := r } .http) .https
    exact hhttps.trans (rank_close_le { s with registry := r } .http)
  | registry ha => exact absurd rfl (ha k)

end

/-! ### Taken down, or not -/

/-- An accept is pending on an open acceptor only, and a shutdown that is over has closed both acceptors. -/
structure Tidy (s : Listeners ι) : Prop where
  released : s.Released
  pending : ∀ p, s.tasks p = .accepting .pending → s.isOpen p = true
  closed : s.registry.acceptorsOpen = false → ∀ p, s.isOpen p = false

theorem Tidy.new {cfg : Config} : (Listeners.new cfg : Listeners ι).Tidy where
  released := nofun
  pending p h := by
    simp only [Listeners.new] at h
    split at h <;> cases h
  closed := nofun

/-- A listener goes on. -/
theorem Tidy.setTask {k : ListenerTask} (hi : s.Tidy) (ht : k = .accepting .pending → s.isOpen p = true) :
    (s.setTask p k).Tidy := by
  refine ⟨hi.released, fun q h => ?_, hi.closed⟩
  rw [setTask_tasks] at h
  split at h
  · subst q
    exact ht h
  · exact hi.pending q h

theorem cancel_ne_pending (task : ListenerTask) : task.cancel ≠ .accepting .pending := by
  cases task with
  | accepting op => cases op <;> simp [ListenerTask.cancel, Await.close]
  | _ => simp [ListenerTask.cancel]

theorem close_pending (hp : ∀ p, s.tasks p = .accepting .pending → s.isOpen p = true) (q p : Port)
    (h : (s.close q).tasks p = .accepting .pending) : (s.close q).isOpen p = true := by
  rcases eq_or_ne p q with rfl | hne
  · exact absurd ((Function.update_self ..).symm.trans h) (cancel_ne_pending _)
  · have hs : s.tasks p = .accepting .pending := (Function.update_of_ne hne ..).symm.trans h
    exact (Function.update_of_ne hne ..).trans (hp p hs)

theorem Tidy.uninstallListener (hi : s.Tidy) (p : Port) : (s.uninstallListener p).Tidy := by
  refine ⟨hi.released.uninstallListener p, ?_, fun hc q => ?_⟩
  · unfold Listeners.uninstallListener
    split
    · exact close_pending hi.pending p
    · exact hi.pending
  · rw [uninstallListener_registry] at hc
    exact uninstallListener_isOpen_of (hi.closed hc q)

/-- The task of a listener whose acceptor nothing has closed; `aborted` says that the system has aborted an
accept of it. -/
def Untouched (aborted : Prop) (has : Bool) : ListenerTask → Prop
  | .accepting (.ready .operationAborted) => aborted
  | .returned => aborted ∨ has = false
  | .uninstalling _ => False
  | _ => True

theorem Untouched.mono {aborted aborted' : Prop} {has : Bool} {task : ListenerTask} (h : Untouched aborted has task)
    (ha : aborted → aborted') : Untouched aborted' has task := by
  unfold Untouched at h ⊢
  split
  · exact ha h
  · exact h.imp_left ha
  · exact h
  · trivial

/-- No shutdown has been called and no listener has come to an end of its own. -/
structure Intact (aborted : Port → Prop) (s : Listeners ι) : Prop where
  calls : s.registry.calls = []
  signals : s.signals = some .pending ∨ s.signals = some (.ready .success)
  isOpen : ∀ p, s.isOpen p = hasAcceptor s.cfg p
  tasks : ∀ p, Untouched (aborted p) (hasAcceptor s.cfg p) (s.tasks p)

/-- The signal handler is gone and both acceptors are closed, or there is someone who will close them. -/
structure Ending (s : Listeners ι) : Prop where
  signals : s.signals ≠ some .pending
  closing : s.registry.calls ≠ [] ∨ (∃ q, s.tasks q = .uninstalling .http) ∨
    (∃ q, s.tasks q = .uninstalling .https ∧ s.isOpen .http = false) ∨ ∀ p, s.isOpen p = false

theorem Intact.new {cfg : Config} {aborted : Port → Prop} : Intact aborted (Listeners.new cfg : Listeners ι) where
  calls := rfl
  signals := .inl rfl
  isOpen _ := rfl
  tasks p := by
    show Untouched (aborted p) (hasAcceptor cfg p) (if hasAcceptor cfg p then .loop else .returned)
    cases hasAcceptor cfg p with
    | true => trivial
    | false => exact .inr rfl

theorem Intact.setTask {aborted aborted' : Port → Prop} {k : ListenerTask} (hi : Intact aborted s)
    (ha : ∀ q, aborted q → aborted' q) (ht : Untouched (aborted' p) (hasAcceptor s.cfg p) k) :
    Intact aborted' (s.setTask p k) := by
  refine ⟨hi.calls, hi.signals, hi.isOpen, fun q => ?_⟩
  rw [setTask_tasks]
  split
  · subst q
    exact ht
  · exact (hi.tasks q).mono (ha q)

section

variable [DecidableEq ι] {a : Event ι}

theorem acceptorsOpen_of_step {r r' : Registry ι} {b : Registry.Action ι} (h : Registry.Step r b r')
    (hb : ∀ k, b ≠ .closeAcceptors k) : r'.acceptorsOpen = r.acceptorsOpen := by
  cases h with
  | closeAcceptors => exact absurd rfl (hb _)
  | _ => rfl

theorem Tidy.step (hi : s.Tidy) (h : Step s a t) : t.Tidy := by
  cases h with
  | leaveLoop | enterLoop | accepted => exact hi.setTask (by simp)
  | startAccept => exact hi.setTask fun h => Await.start_eq_pending.1 (ListenerTask.accepting.inj h)
  | resume =>
    refine hi.setTask fun h => ?_
    unfold afterAccept at h
    split at h
    · cases h
    · split at h <;> cases h
  | @dispatch p =>
    have hset := hi.setTask (p := p) (k := if s.cfg.server.runMode = .SingleRequest then .leaving else .loop)
      fun h => by split at h <;> cases h
    exact ⟨hset.released, hset.pending, hset.closed⟩
  | cancelSignals =>
    have hs : s.uninstallSignalsHandler.Tidy := ⟨hi.released, hi.pending, hi.closed⟩
    exact hs.setTask (by simp)
  | uninstallHttp | uninstallHttps => exact (hi.uninstallListener _).setTask (by simp)
  | signal | dropSignalHandler => exact ⟨hi.released, hi.pending, hi.closed⟩
  | runSignalHandler _ hr =>
    cases Registry.step_cases hr with
    | scheduleShutdown => exact ⟨hi.released, hi.pending, hi.closed⟩
  | @closeAcceptors k r hr =>
    have hopen := closeAcceptors_released { s with registry := r } rfl
    refine ⟨fun _ => hopen, fun p h => ?_, fun _ => hopen⟩
    exact close_pending (s := close _ _) (close_pending (s := { s with registry := r }) hi.pending _) _ p h
  | registry hb hr =>
    refine ⟨hi.released, hi.pending, fun hc => hi.closed ?_⟩
    rw [← acceptorsOpen_of_step (Registry.step_cases hr) hb]
    exact hc

/-- Without a call of `schedule_shutdown` the registry only changes its sessions. -/
theorem calls_eq_nil {r r' : Registry ι} {b : Registry.Action ι} (h : Registry.Step r b r') (hc : r.calls = [])
    (hb : b ≠ .scheduleShutdown) : r'.calls = [] := by
  cases h with
  | scheduleShutdown => exact absurd rfl hb
  | lose h | win h | collect h | stopNext h | closeAcceptors h =>
    rw [hc] at h
    cases h
  | _ => exact hc

theorem Intact.step {as : List (Event ι)} (hi : Intact (fun p => .accepted p .operationAborted ∈ as) s)
    (h : Step s a t) (ha : a ≠ .registry .scheduleShutdown) :
    Intact (fun p => .accepted p .operationAborted ∈ as ++ [a]) t ∨ t.Ending := by
  have hmono : ∀ q : Port, .accepted q .operationAborted ∈ as → .accepted q .operationAborted ∈ as ++ [a] :=
    fun q hm => List.mem_append_left _ hm
  have hstay : Intact (fun p => .accepted p .operationAborted ∈ as ++ [a]) s :=
    ⟨hi.calls, hi.signals, hi.isOpen, fun q => (hi.tasks q).mono (hmono q)⟩
  have hno : ∀ {p q : Port}, s.tasks p ≠ .uninstalling q := fun {p q} h => by
    have hp := hi.tasks p
    rw [h] at hp
    exact hp
  cases h with
  | leaveLoop | enterLoop => exact .inl (hi.setTask hmono trivial)
  | @startAccept p =>
    refine .inl (hi.setTask hmono ?_)
    cases s.isOpen p <;> trivial
  | @accepted p ec =>
    refine .inl (hi.setTask hmono ?_)
    cases ec with
    | operationAborted => exact List.mem_append_right _ (List.mem_singleton_self _)
    | _ => trivial
  | @resume p ec h =>
    refine .inl (hi.setTask hmono ?_)
    have hp := hi.tasks p
    rw [h] at hp
    cases ec with
    | operationAborted => exact .inl (hmono p hp)
    | _ => trivial
  | @dispatch p =>
    have hset := hi.setTask (p := p) (k := if s.cfg.server.runMode = .SingleRequest then .leaving else .loop)
      hmono (by split <;> trivial)
    exact .inl ⟨hset.calls, hset.signals, hset.isOpen, hset.tasks⟩
  | @cancelSignals p =>
    refine .inr ⟨?_, .inr (.inl ⟨p, Function.update_self ..⟩)⟩
    show s.signals.map (·.close .operationAborted) ≠ _
    rcases hi.signals with hs | hs <;> rw [hs] <;> simp [Await.close]
  | uninstallHttp h | uninstallHttps h => exact absurd h hno
  | signal => exact .inl ⟨hstay.calls, .inr rfl, hstay.isOpen, hstay.tasks⟩
  | runSignalHandler _ hr =>
    cases Registry.step_cases hr with
    | scheduleShutdown => exact .inr ⟨by simp, .inl (by simp)⟩
  | dropSignalHandler h hec =>
    rcases hi.signals with hs | hs <;> rw [h] at hs <;> cases hs
    exact absurd rfl hec
  | closeAcceptors hr =>
    cases Registry.step_cases hr with
    | closeAcceptors hk =>
      rw [hi.calls] at hk
      cases hk
  | registry _ hr =>
    have hc := calls_eq_nil (Registry.step_cases hr) hi.calls fun he => ha (he ▸ rfl)
    exact .inl ⟨hc, hstay.signals, hstay.isOpen, hstay.tasks⟩

theorem Step.signals_ne (h : Step s a t) (hs : s.signals ≠ some .pending) : t.signals ≠ some .pending := by
  cases h with
  | cancelSignals =>
    show s.signals.map (·.close .operationAborted) ≠ _
    rcases hh : s.signals with _ | _ | _ <;> simp [Await.close]
  | uninstallHttp | uninstallHttps =>
    show (Listeners.uninstallListener _ _).signals ≠ _
    rwa [uninstallListener_signals]
  | signal | runSignalHandler | dropSignalHandler => simp
  | _ => exact hs

/-- Acceptors are never opened again. -/
theorem Step.isOpen (h : Step s a t) (hp : s.isOpen p = false) : t.isOpen p = false := by
  cases h with
  | uninstallHttp => exact uninstallListener_isOpen_of (s := s) hp
  | uninstallHttps => exact uninstallListener_isOpen_of (s := s) hp
  | closeAcceptors => exact closeAcceptors_released { s with registry := _ } rfl p
  | _ => exact hp

/-- The listener whose step it is. -/
def Event.listener? : Event ι → Option Port
  | .checkShutdown p | .startAccept p | .accepted p _ | .resume p | .dispatch p | .cancelSignals p | .uninstall p =>
    some p
  | _ => none

/-- Apart from its own steps, only the end of its accept changes a listener. -/
theorem Step.task_kept {task : ListenerTask} (h : Step s a t) (hp : s.tasks p = task) (hn : task.cancel = task) :
    t.tasks p = task ∨ a.listener? = some p := by
  have hset : ∀ {u : Listeners ι} {q : Port} {k : ListenerTask}, u.tasks p = task →
      (u.setTask q k).tasks p = task ∨ some q = some p := by
    intro u q k hu
    rw [setTask_tasks]
    split
    · subst q
      exact .inr rfl
    · exact .inl hu
  cases h with
  | leaveLoop | enterLoop | startAccept | accepted | resume | dispatch => exact hset (u := s) hp
  | cancelSignals => exact hset (u := s.uninstallSignalsHandler) hp
  | uninstallHttp | uninstallHttps => exact hset (tasks_uninstallListener hp hn _)
  | @closeAcceptors k r =>
    have hhttp := tasks_close (s := { s with registry := r }) hp hn .http
    exact .inl (tasks_close hhttp hn .https)
  | _ => exact .inl hp

/-- A listener in `uninstall_listeners` goes on by itself. -/
theorem Step.uninstalling (h : Step s a t) (hp : s.tasks p = .uninstalling q) :
    t.tasks p = .uninstalling q ∨ a = .uninstall p := by
  refine (h.task_kept hp rfl).imp_right fun ha => ?_
  cases h with
  | uninstallHttp | uninstallHttps => exact congrArg Event.uninstall (Option.some.inj ha)
  | leaveLoop h | enterLoop h | startAccept h | accepted h | resume h | dispatch h | cancelSignals h =>
    rw [← Option.some.inj ha, h] at hp
    cases hp
  | _ => cases ha

theorem Ending.step (hi : s.Ending) (hr : s.Released) (h : Step s a t) : t.Ending := by
  refine ⟨h.signals_ne hi.signals, ?_⟩
  rcases hi.closing with hc | ⟨q, hq⟩ | ⟨q, hq, ho⟩ | ho
  · exact .inl (h.calls_ne_nil hc)
  · rcases h.uninstalling hq with ht | rfl
    · exact .inr (.inl ⟨q, ht⟩)
    · cases h with
      | uninstallHttp =>
        exact .inr (.inr (.inl ⟨q, Function.update_self .., uninstallListener_isOpen hr .http⟩))
      | uninstallHttps h =>
        rw [hq] at h
        cases h
  · rcases h.uninstalling hq with ht | rfl
    · exact .inr (.inr (.inl ⟨q, ht, h.isOpen ho⟩))
    · cases h with
      | uninstallHttp h =>
        rw [hq] at h
        cases h
      | uninstallHttps =>
        refine .inr (.inr (.inr fun p => ?_))
        cases p with
        | http => exact uninstallListener_isOpen_of ho
        | https => exact uninstallListener_isOpen hr .https
  · exact .inr (.inr (.inr fun p => h.isOpen (ho p)))

/-- The signal handler alone calls `schedule_shutdown`. -/
theorem intact_or_ending {cfg : Config} {as : List (Event ι)} (h : Run (Det step) (Listeners.new cfg) as s)
    (ha : ∀ a ∈ as, a ≠ .registry .scheduleShutdown) :
    s.Tidy ∧ (Intact (fun p => .accepted p .operationAborted ∈ as) s ∨ s.Ending) := by
  have hg := h.guarded (G := fun _ a => a ≠ .registry .scheduleShutdown) fun a hm _ => ha a hm
  refine hg.trace_invariant (I := fun as s => s.Tidy ∧
    (Intact (fun p => .accepted p .operationAborted ∈ as) s ∨ s.Ending)) ⟨.new, .inl .new⟩ ?_
  rintro as s a t ⟨hi, hp⟩ ⟨ha, hst⟩
  have hst := step_cases hst
  refine ⟨hi.step hst, ?_⟩
  rcases hp with hp | hp
  · exact hp.step hst ha
  · exact .inr (hp.step hi.released hst)

end

/-! ### The acceptors and their owner -/

/-- The acceptor of a listener that is before its `async_accept` has not been destroyed. -/
def Held (s : Listeners ι) : Prop := ∀ p, s.tasks p = .starting → s.holdsAcceptors = true

theorem cancel_eq_starting {task : ListenerTask} : task.cancel = .starting ↔ task = .starting := by
  cases task <;> simp [ListenerTask.cancel]

theorem starting_setTask {k : ListenerTask} (hk : k ≠ .starting) (h : (s.setTask q k).tasks p = .starting) :
    s.tasks p = .starting := by
  rw [setTask_tasks] at h
  split at h
  · exact absurd h hk
  · exact h

theorem starting_close (h : (s.close q).tasks p = .starting) : s.tasks p = .starting := by
  rcases eq_or_ne p q with rfl | hne
  · rw [show (s.close p).tasks p = (s.tasks p).cancel from Function.update_self ..] at h
    exact cancel_eq_starting.1 h
  · exact (Function.update_of_ne hne ..).symm.trans h

theorem starting_uninstallListener (h : (s.uninstallListener q).tasks p = .starting) :
    s.tasks p = .starting := by
  unfold uninstallListener at h
  split at h
  · exact starting_close h
  · exact h

/-- No listener has come to its `async_accept`. -/
theorem Held.congr (hi : s.Held) (ht : ∀ p, t.tasks p = .starting → s.tasks p = .starting)
    (hh : t.holdsAcceptors = s.holdsAcceptors) : t.Held :=
  fun p hp => hh.trans (hi p (ht p hp))

theorem Held.setTask {k : ListenerTask} (hi : s.Held) (hk : k ≠ .starting) : (s.setTask p k).Held :=
  hi.congr (fun _ => starting_setTask hk) rfl

section

variable [DecidableEq ι] {a : Event ι}

/-- Only the call of `schedule_shutdown` that has won moves the acceptors out. -/
structure Owning (s : Listeners ι) : Prop where
  inv : s.registry.Inv
  pending : s.holdsAcceptors = false → s.registry.shutdownPending = true

theorem pending_kept {r r' : Registry ι} {b : Registry.Action ι} (h : Registry.Step r b r')
    (hp : r.shutdownPending = true) : r'.shutdownPending = true := by
  cases h with
  | win => rfl
  | _ => exact hp

theorem Owning.step (hi : s.Owning) (h : Step s a t) : t.Owning := by
  refine ⟨h.registry_inv hi.inv, ?_⟩
  cases h with
  | uninstallHttp | uninstallHttps =>
    show (s.uninstallListener _).holdsAcceptors = false → (s.uninstallListener _).registry.shutdownPending = true
    rw [uninstallListener_holdsAcceptors, uninstallListener_registry]
    exact hi.pending
  | runSignalHandler _ hr | registry _ hr =>
    exact fun hh => pending_kept (Registry.step_cases hr) (hi.pending hh)
  | closeAcceptors hr =>
    intro _
    cases Registry.step_cases hr with
    | closeAcceptors hk => exact hi.inv.shutdown.pending_of_hasCollected hk rfl
  | _ => exact hi.pending

theorem owning_of_run {cfg : Config} {as : List (Event ι)} (h : Run (Det step) (Listeners.new cfg) as s) :
    s.Owning :=
  h.invariant (I := Owning) (fun _ _ _ hi hst => hi.step (step_cases hst)) ⟨.new, fun h => by cases h⟩

/-- A listener comes to its `async_accept` only where no shutdown has begun, so its acceptor is there; it stays as
long as no acceptor is destroyed. -/
theorem Held.step (hi : s.Held) (ho : s.Owning) (h : Step s a t)
    (ha : (∃ k, a = .registry (.closeAcceptors k)) → ∀ p, s.tasks p ≠ .starting) : t.Held := by
  cases h with
  | enterLoop _ hp =>
    have hholds : s.holdsAcceptors = true := by
      by_contra hn
      simp [ho.pending (by simpa using hn)] at hp
    exact fun _ _ => hholds
  | leaveLoop | startAccept | accepted => exact hi.setTask (by simp)
  | @resume p ec =>
    refine hi.setTask ?_
    unfold afterAccept
    split
    · simp
    · split <;> simp
  | @dispatch p =>
    exact hi.congr (fun _ => starting_setTask (by split <;> simp)) rfl
  | cancelSignals => exact hi.congr (fun _ => starting_setTask (s := s.uninstallSignalsHandler) (by simp)) rfl
  | uninstallHttp | uninstallHttps =>
    exact hi.congr (fun _ h => starting_uninstallListener (starting_setTask (by simp) h))
      (uninstallListener_holdsAcceptors ..)
  | @closeAcceptors k r =>
    intro p hp
    have hs := starting_close (s := { s with registry := r }) (starting_close hp)
    exact absurd hs (ha ⟨k, rfl⟩ p)
  | signal | runSignalHandler | dropSignalHandler | registry => exact hi.congr (fun _ => id) rfl

end

/-! ### A connection in hand -/

theorem of_inHand_setTask {task : ListenerTask} {q : Port} (hp : ((s.setTask q task).tasks p).InHand) :
    p ≠ q ∧ (s.tasks p).InHand ∨ p = q ∧ task.InHand := by
  rw [setTask_tasks] at hp
  split at hp
  · exact .inr ⟨‹_›, hp⟩
  · exact .inl ⟨‹_›, hp⟩

/-- A listener has a connection in hand since its accept. -/
theorem Step.of_inHand [DecidableEq ι] {a : Event ι} (h : Step s a t) (hp : (t.tasks p).InHand) :
    (s.tasks p).InHand ∧ a ≠ .dispatch p ∨ a = .accepted p .success := by
  have hgo : ∀ {u : Listeners ι} {q : Port} {k : ListenerTask}, ¬ k.InHand →
      ((u.setTask q k).tasks p).InHand → (u.tasks p).InHand ∧ p ≠ q := by
    intro u q k hn hu
    rcases of_inHand_setTask hu with ⟨hne, hu⟩ | ⟨-, hu⟩
    · exact ⟨hu, hne⟩
    · exact absurd hu hn
  cases h with
  | leaveLoop | enterLoop => exact .inl ⟨(hgo (by rintro (h | h) <;> cases h) hp).1, by simp⟩
  | startAccept =>
    refine .inl ⟨(hgo ?_ hp).1, by simp⟩
    rcases s.isOpen _ <;> rintro (h | h) <;> cases h
  | @accepted q ec h =>
    rcases of_inHand_setTask hp with ⟨-, hu⟩ | ⟨rfl, hu⟩
    · exact .inl ⟨hu, by simp⟩
    · rcases hu with hu | hu <;> cases hu
      exact .inr rfl
  | @resume q ec h =>
    rcases of_inHand_setTask hp with ⟨-, hu⟩ | ⟨rfl, hu⟩
    · exact .inl ⟨hu, by simp⟩
    · obtain rfl := afterAccept_inHand hu
      exact .inl ⟨.inl h, by simp⟩
  | @dispatch q =>
    have hu := hgo (u := s) (k := if s.cfg.server.runMode = .SingleRequest then .leaving else .loop) ?_ hp
    · exact .inl ⟨hu.1, by simpa using hu.2.symm⟩
    · split <;> rintro (h | h) <;> cases h
  | cancelSignals =>
    have hu := hgo (u := s.uninstallSignalsHandler) (by rintro (h | h) <;> cases h) hp
    exact .inl ⟨hu.1, by simp⟩
  | uninstallHttp | uninstallHttps =>
    have hu := (hgo (by rintro (h | h) <;> cases h) hp).1
    exact .inl ⟨(quiet_uninstallListener _ p).inHand hu, by simp⟩
  | @closeAcceptors k r =>
    have hu := (quiet_close (s := close { s with registry := r } .http) .https p).inHand hp
    exact .inl ⟨(quiet_close (s := { s with registry := r }) .http p).inHand hu, by simp⟩
  | _ => exact .inl ⟨hp, by simp⟩

end Listeners

end MarketBridge
