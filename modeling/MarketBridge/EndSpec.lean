import MarketBridge.HaltSpec

/-!
# When the server ends

A server that has nothing to do is kept alive by its signal handler. The handler is called for a signal, and it is
cancelled by a listener that leaves its loop: after an accept that has failed or, in single-request mode, after a
connection. So a server with nothing left to do has finished exactly if one of these has happened.
-/

namespace MarketBridge

open Lts (Run Det Guarded Ranked)

namespace Listeners

variable {ι : Type} {s t : Listeners ι} {mode : ServerRunningMode} {p q : Port} {k : ListenerTask}

/-- A listener with this task is going to cancel the signal handler. -/
def Leads (mode : ServerRunningMode) : ListenerTask → Prop
  | .accepting (.ready ec) => Failed ec ∨ ec = .success ∧ mode = .SingleRequest
  | .handling => mode = .SingleRequest
  | .leaving => True
  | _ => False

/-- The signal handler has been called or cancelled, or a listener is going to cancel it. -/
def Doomed (s : Listeners ι) : Prop :=
  s.signals ≠ some .pending ∨ ∃ p, Leads s.cfg.server.runMode (s.tasks p)

/-- What makes the server end. -/
def Event.Ends (mode : ServerRunningMode) : Event ι → Prop
  | .signal => True
  | .accepted _ ec => Leads mode (.accepting (.ready ec))
  | _ => False

/-! ### The tasks -/

theorem leads_cancel : Leads mode k.cancel ↔ Leads mode k := by
  cases k with
  | accepting op =>
    cases op with
    | pending => simp [ListenerTask.cancel, Await.close, Leads, Failed]
    | ready => rfl
  | _ => rfl

theorem leads_afterAccept {ec : ErrorCode} :
    Leads mode (afterAccept ec) ↔ Leads mode (.accepting (.ready ec)) := by
  cases ec <;> simp [afterAccept, isAborted, checkEc, Leads, Failed]

theorem leads_setTask (h : Leads mode k ↔ Leads mode (s.tasks p)) (q : Port) :
    Leads mode ((s.setTask p k).tasks q) ↔ Leads mode (s.tasks q) := by
  rw [setTask_tasks]
  split
  · subst q
    exact h
  · rfl

theorem leads_close (p q : Port) : Leads mode ((s.close p).tasks q) ↔ Leads mode (s.tasks q) := by
  rcases eq_or_ne q p with rfl | hne
  · rw [show (s.close q).tasks q = (s.tasks q).cancel from Function.update_self ..]
    exact leads_cancel
  · rw [show (s.close p).tasks q = s.tasks q from Function.update_of_ne hne ..]

theorem leads_uninstallListener (p q : Port) :
    Leads mode ((s.uninstallListener p).tasks q) ↔ Leads mode (s.tasks q) := by
  unfold uninstallListener
  split
  · exact leads_close p q
  · rfl

theorem doomed_congr (hc : t.cfg = s.cfg) (hs : t.signals = s.signals)
    (ht : ∀ p, Leads s.cfg.server.runMode (t.tasks p) ↔ Leads s.cfg.server.runMode (s.tasks p)) :
    t.Doomed ↔ s.Doomed := by
  rw [Doomed, Doomed, hc, hs, exists_congr ht]

theorem doomed_setTask (h : Leads s.cfg.server.runMode k ↔ Leads s.cfg.server.runMode (s.tasks p)) :
    (s.setTask p k).Doomed ↔ s.Doomed :=
  doomed_congr rfl rfl (leads_setTask h)

theorem doomed_of_setTask (h : Leads s.cfg.server.runMode k) : (s.setTask p k).Doomed :=
  .inr ⟨p, by rw [setTask_tasks, if_pos rfl]; exact h⟩

section

variable [DecidableEq ι] {a : Event ι}

/-- Only what makes the server end can doom it: but for that, a listener leaves its loop when the shutdown has
begun or when it finds its acceptor closed. -/
theorem Step.doomed_cases (h : Step s a t) : (t.Doomed ↔ s.Doomed) ∨
    t.Doomed ∧ (a.Ends s.cfg.server.runMode ∨ s.registry.shutdownPending = true ∨
      ∃ p, s.tasks p = .starting ∧ s.isOpen p = false) := by
  cases h with
  | leaveLoop h hp => exact .inr ⟨doomed_of_setTask trivial, .inr (.inl hp)⟩
  | enterLoop h => exact .inl (doomed_setTask (by simp [h, Leads]))
  | @startAccept p h =>
    cases ho : s.isOpen p with
    | true => exact .inl (doomed_setTask (by simp [h, Leads, Await.start]))
    | false =>
      have hfailed : Failed .badDescriptor := ⟨by decide, by decide⟩
      exact .inr ⟨doomed_of_setTask (.inl hfailed), .inr (.inr ⟨p, h, ho⟩)⟩
  | @accepted p ec h =>
    by_cases he : Leads s.cfg.server.runMode (.accepting (.ready ec))
    · exact .inr ⟨doomed_of_setTask he, .inl he⟩
    · exact .inl (doomed_setTask (iff_of_false he (by simp [h, Leads])))
  | @resume p ec h => exact .inl (doomed_setTask (h ▸ leads_afterAccept))
  | @dispatch p h =>
    refine .inl (doomed_congr rfl rfl (leads_setTask ?_))
    rw [h]
    split <;> simp_all [Leads]
  | @cancelSignals p h =>
    refine .inl (iff_of_true (.inl ?_) (.inr ⟨p, by rw [h]; trivial⟩))
    show s.signals.map (·.close .operationAborted) ≠ _
    rcases s.signals with _ | _ | _ <;> simp [Await.close]
  | @uninstallHttp p h | @uninstallHttps p h =>
    refine .inl (doomed_congr (uninstallListener_cfg ..) (uninstallListener_signals ..) fun q => ?_)
    rw [leads_setTask (iff_of_false id ?_), leads_uninstallListener]
    rw [leads_uninstallListener, h]
    exact id
  | signal => exact .inr ⟨.inl (by simp), .inl trivial⟩
  | runSignalHandler h | dropSignalHandler h => exact .inl (iff_of_true (.inl (by simp)) (.inl (by simp [h])))
  | @closeAcceptors k r =>
    refine .inl (doomed_congr rfl rfl fun q => ?_)
    exact (leads_close (s := close _ _) .https q).trans (leads_close (s := { s with registry := r }) .http q)
  | registry => exact .inl Iff.rfl

theorem Step.doomed_of_ends (h : Step s a t) (ha : a.Ends s.cfg.server.runMode) : t.Doomed := by
  cases h with
  | accepted => exact doomed_of_setTask ha
  | signal => exact .inl (by simp)
  | _ => cases ha

/-! ### The runs -/

/-- A listener that has returned does not come back. -/
theorem Step.returned (h : Step s a t) (hp : s.tasks p = .returned) : t.tasks p = .returned := by
  refine (h.task_kept hp rfl).resolve_right fun ha => ?_
  cases h with
  | leaveLoop h | enterLoop h | startAccept h | accepted h | resume h | dispatch h | cancelSignals h
  | uninstallHttp h | uninstallHttps h =>
    rw [← Option.some.inj ha, h] at hp
    cases hp
  | _ => cases ha

/-- A port without an acceptor has no listener. -/
theorem absent_of_run {cfg : Config} {as : List (Event ι)} (h : Run (Det step) (Listeners.new cfg) as s)
    (hp : hasAcceptor cfg p = false) : s.tasks p = .returned := by
  refine h.invariant (I := fun s => s.tasks p = .returned) (fun _ _ _ hi hst => (step_cases hst).returned hi) ?_
  show (if hasAcceptor cfg p then ListenerTask.loop else .returned) = _
  rw [hp]
  rfl

theorem cfg_of_run {cfg : Config} {as : List (Event ι)} (h : Run (Det step) (Listeners.new cfg) as s) :
    s.cfg = cfg :=
  h.invariant (I := fun s => s.cfg = cfg) (fun _ _ _ hi hst => (step_cases hst).cfg.trans hi) rfl

theorem registry_inv_of_run {cfg : Config} {as : List (Event ι)} (h : Run (Det step) (Listeners.new cfg) as s) :
    s.registry.Inv :=
  h.invariant (I := fun s => s.registry.Inv) (fun _ _ _ hi hst => (step_cases hst).registry_inv hi) .new

/-- The shutdown has begun, or an acceptor is closed, only after the handler has been called or cancelled. -/
theorem doomed_of_run {cfg : Config} {as : List (Event ι)} (h : Run (Det step) (Listeners.new cfg) as s)
    (ha : .registry .scheduleShutdown ∉ as)
    (hs : s.registry.shutdownPending = true ∨ ∃ p, s.tasks p = .starting ∧ s.isOpen p = false) : s.Doomed := by
  obtain ⟨-, hin | hend⟩ := intact_or_ending h fun a hm he => ha (he ▸ hm)
  · exfalso
    rcases hs with hp | ⟨p, hp, ho⟩
    · cases (registry_inv_of_run h).shutdown with
      | calm hn =>
        rw [hp] at hn
        cases hn
      | pending _ hk =>
        rw [hin.calls] at hk
        cases hk
    · rw [hin.isOpen, cfg_of_run h] at ho
      rw [absent_of_run h ho] at hp
      cases hp
  · exact .inl hend.signals

theorem doomed_iff {cfg : Config} {as : List (Event ι)} (h : Run (Det step) (Listeners.new cfg) as s)
    (ha : .registry .scheduleShutdown ∉ as) : s.Doomed ↔ ∃ a ∈ as, a.Ends cfg.server.runMode := by
  let I (as : List (Event ι)) (s : Listeners ι) : Prop := Run (Det step) (Listeners.new cfg) as s ∧
    (.registry .scheduleShutdown ∉ as → (s.Doomed ↔ ∃ a ∈ as, a.Ends cfg.server.runMode))
  have hi : I as s := by
    refine h.trace_invariant (I := I) ⟨.nil _, fun _ => ?_⟩ ?_
    · refine iff_of_false ?_ (by simp)
      rintro (hs | ⟨p, hp⟩)
      · exact hs rfl
      · have htask : (Listeners.new cfg : Listeners ι).tasks p = if hasAcceptor cfg p then .loop else .returned :=
          rfl
        rw [htask] at hp
        split at hp <;> exact hp
    · rintro as s a t ⟨hr, hi⟩ hst
      refine ⟨hr.append (.single hst), fun hn => ?_⟩
      rw [List.mem_append, not_or] at hn
      specialize hi hn.1
      have hst := step_cases hst
      have hcfg := cfg_of_run hr
      have hsplit : (∃ b ∈ as ++ [a], b.Ends cfg.server.runMode) ↔
          (∃ b ∈ as, b.Ends cfg.server.runMode) ∨ a.Ends cfg.server.runMode := by
        simp only [List.mem_append, List.mem_singleton, or_and_right, exists_or, exists_eq_left]
      rw [hsplit]
      by_cases he : a.Ends cfg.server.runMode
      · exact iff_of_true (hst.doomed_of_ends (hcfg ▸ he)) (.inr he)
      · rw [or_iff_left he, ← hi]
        rcases hst.doomed_cases with hd | ⟨hd, hc | hc⟩
        · exact hd
        · exact absurd (hcfg ▸ hc) he
        · exact iff_of_true hd (doomed_of_run hr hn.1 hc)
  exact hi.2 ha

end

end Listeners

namespace System

variable {s t : System} {e : Event} {as : List Event} {cfg : Config} {memory : ConnId → Bytes} {now : ℚ}

/-- What makes the server end: a signal, a failed accept and, in single-request mode, a connection. -/
def Event.Ends (mode : ServerRunningMode) : Event → Prop
  | .listener l => l.Ends mode
  | .accepted .. => mode = .SingleRequest
  | _ => False

theorem Event.ends_iff {mode : ServerRunningMode} : e.Ends mode ↔ ∃ l, e.heard = some l ∧ l.Ends mode := by
  cases e with
  | accepted => simp [Event.Ends, heard, Listeners.Event.Ends, Listeners.Leads, Listeners.Failed]
  | listener l => cases l <;> simp [Event.Ends, heard, Listeners.Event.Ends]
  | _ => simp [Event.Ends, heard]

theorem exists_ends_iff {mode : ServerRunningMode} {ls : List (Listeners.Event SessionId)}
    (hh : ls.filter (·.fromOutside) = as.filterMap Event.heard) :
    (∃ l ∈ ls, l.Ends mode) ↔ ∃ e ∈ as, e.Ends mode := by
  constructor
  · rintro ⟨l, hl, he⟩
    have hout : l.fromOutside = true := by
      cases l with
      | accepted | signal => rfl
      | _ => cases he
    obtain ⟨e, hm, hs⟩ := List.mem_filterMap.1 (hh ▸ List.mem_filter.2 ⟨hl, hout⟩)
    exact ⟨e, hm, Event.ends_iff.2 ⟨l, hs, he⟩⟩
  · rintro ⟨e, hm, he⟩
    obtain ⟨l, hs, hl⟩ := Event.ends_iff.1 he
    have hf : l ∈ ls.filter (·.fromOutside) := hh ▸ List.mem_filterMap.2 ⟨e, hm, hs⟩
    exact ⟨l, (List.mem_filter.1 hf).1, hl⟩

theorem doomed_iff (h : Run (Det step) (new cfg memory now) as s) :
    s.listeners.Doomed ↔ ∃ e ∈ as, e.Ends cfg.server.runMode := by
  obtain ⟨ls, hr, hh, hn⟩ := listeners_of_run h
  rw [Listeners.doomed_iff hr hn, exists_ends_iff hh]

theorem Waiting.not_doomed (hw : s.Waiting as) (h : Run (Det step) (new cfg memory now) as s) (hst : s.Stuck) :
    ¬ s.listeners.Doomed := by
  rintro (hs | ⟨p, hp⟩)
  · exact hs hw.signals
  · rcases hst.tasks (standing_of_run h) p with ht | ht <;> rw [ht] at hp <;> exact hp

/-- When nothing can happen any more, completions by peers included, and the waits for the headers have expired,
the server has finished exactly if a signal has come, an accept has failed or, in single-request mode, a
connection has been accepted. -/
theorem finished_iff (h : Run (Guarded Holding (Det step)) (new cfg memory now) as s) (hst : s.Stuck) (hd : s.Due) :
    s.Finished ↔ ∃ e ∈ as, e.Ends cfg.server.runMode := by
  have h := run_of_holding h
  rw [← doomed_iff h]
  constructor
  · intro hf
    exact .inl (by simp [hf.signals])
  · intro hdoomed
    exact (hst.finished_or_waiting h hd).resolve_right fun hw => hw.not_doomed h hst hdoomed

theorem finished_iff_signalled : ∃ s, Run (Guarded Holding (Det step)) (new {} (fun _ => []) 0) signalled s ∧
    s.Stuck ∧ s.Due ∧ s.Finished := by
  obtain ⟨s, h, hf, hdue⟩ := run_signalled
  exact ⟨s, h, hf.stuck, hdue, (finished_iff h hf.stuck hdue).2 ⟨.listener .signal, by simp [signalled], trivial⟩⟩

/-! ### The way to the end -/

theorem Step.owning (hi : s.listeners.Owning) (h : Step s e t) : t.listeners.Owning := by
  obtain ⟨ls, -, hr⟩ := h.listeners_run
  exact hr.invariant (I := Listeners.Owning) (fun _ _ _ hi hst => hi.step (Listeners.step_cases hst)) hi

theorem held_serverStep {u : System} {e : Server.Event} (hi : u.listeners.Held) (h : u.serverStep e = some t) :
    t.listeners.Held := by
  rw [(of_serverStep h).2]
  exact hi

/-- No acceptor is destroyed while a listener is before its `async_accept`. -/
def Careful (s : System) (e : Event) : Prop :=
  (∃ k, e = .closeAcceptors k) → ∀ p, s.listeners.tasks p ≠ .starting

theorem Step.held (hi : s.listeners.Held) (ho : s.listeners.Owning) (hc : s.Careful e) (h : Step s e t) :
    t.listeners.Held := by
  cases h with
  | tick => exact hi
  | accepted hl ht => exact held_serverStep (hi.step ho (Listeners.step_cases hl) (by simp)) ht
  | @dispatch p files c listeners t _ hl ht =>
    have hheld : listeners.Held := hi.step ho (Listeners.step_cases hl) (by simp)
    cases p with
    | http => exact held_serverStep hheld ht
    | https => exact held_serverStep hheld (of_sslHandshake ht)
  | runSniff _ ht | timerExpires _ _ ht | runHeader _ _ ht | server _ ht => exact held_serverStep hi ht
  | runStart ht | decide _ _ ht =>
    have hs := held_serverStep (by exact hi) ht
    exact hs
  | runSniffTls _ ht =>
    have hs := held_serverStep (by exact hi) (of_sslHandshake ht)
    exact hs
  | @closeAcceptors k t ht => exact hi.step ho (Listeners.step_cases (of_listenerStep ht).1) fun _ => hc ⟨k, rfl⟩
  | listener he ht =>
    refine hi.step ho (Listeners.step_cases (of_listenerStep ht).1) ?_
    rintro ⟨k, rfl⟩
    simp [Listeners.Event.isShared] at he

/-- Where the acceptors are held, the accepts that are started are started on them. -/
theorem Step.holding (hi : s.listeners.Held) (h : Step s e t) : s.Holding e := by
  cases h with
  | @listener l t he ht =>
    cases l with
    | startAccept p =>
      have hst := Listeners.step_cases (of_listenerStep ht).1
      generalize t.listeners = listeners at hst
      cases hst with
      | startAccept hp => exact hi p hp
    | _ => trivial
  | _ => trivial

/-- The waits for the headers have been started in the past. -/
def Begun (s : System) : Prop := ∀ c start, s.timers c = some start → start ≤ s.now

theorem Begun.step (hi : s.Begun) (h : Step s e t) : t.Begun := by
  obtain ⟨hn, ht⟩ := h.timers
  intro c start hstart
  rcases ht with ⟨heq, -⟩ | ⟨c', -, heq⟩ <;> rw [heq] at hstart
  · exact (hi c start hstart).trans hn
  · rcases eq_or_ne c c' with rfl | hne
    · rw [Function.update_self] at hstart
      exact (Option.some.inj hstart) ▸ hn
    · rw [Function.update_of_ne hne] at hstart
      exact (hi c start hstart).trans hn

/-- Nothing new comes from outside, but time may pass. -/
def Event.IsQuiet (e : Event) : Prop := e.gain = 0 ∨ ∃ now, e = .tick now

theorem Event.IsQuiet.within {cs : Finset ConnId} (h : e.IsQuiet) (s : System) : s.Within cs e := by
  rintro p c rfl
  rcases h with h | ⟨_, h⟩ <;> cases h

/-- What is kept on the way to the end. -/
structure OnTheWay (cs : Finset ConnId) (s : System) : Prop where
  counted : s.server.Counted cs
  begun : s.Begun
  owning : s.listeners.Owning
  held : s.listeners.Held

theorem ranked_onTheWay (cs : Finset ConnId) :
    Ranked (Guarded Careful (Guarded (Within cs) (Det step))) (OnTheWay cs) (rank cs) Event.gain where
  kept s e t hi := fun ⟨hc, hw, h⟩ => by
    have hst := step_cases h
    exact ⟨(ranked cs).kept _ _ _ hi.counted ⟨hw, h⟩, hi.begun.step hst, hst.owning hi.owning,
      hst.held hi.held hi.owning hc⟩
  lowers s e t hi := fun ⟨_, h⟩ => (ranked cs).lowers _ _ _ hi.counted h

/-- Where something can happen, something can happen that destroys no acceptor under a listener. -/
theorem exists_careful (hst : ¬ s.Stuck) : ∃ e : Event, e.gain = 0 ∧ s.Careful e ∧ ∃ t, s.step e = some t := by
  by_cases hs : ∃ p, s.listeners.tasks p = .starting
  · obtain ⟨p, hp⟩ := hs
    refine ⟨.listener (.startAccept p), rfl, by simp [Careful], ?_⟩
    simp [step, Listeners.Event.isShared, listenerStep, Listeners.step, hp]
  · obtain ⟨e, he, hne⟩ : ∃ e : Event, e.gain = 0 ∧ s.step e ≠ none := by
      simpa [Stuck] using hst
    exact ⟨e, he, fun _ p hp => hs ⟨p, hp⟩, Option.ne_none_iff_exists'.1 hne⟩

theorem exists_lower {cs : Finset ConnId} (hi : s.OnTheWay cs) (hst : ¬ s.Stuck) : ∃ e t, e.IsQuiet ∧
    Guarded Careful (Guarded (Within cs) (Det step)) s e t ∧ t.rank cs < s.rank cs := by
  obtain ⟨e, he, hc, t, ht⟩ := exists_careful hst
  have hq : e.IsQuiet := .inl he
  exact ⟨e, t, hq, ⟨hc, hq.within s, ht⟩, (ranked_onTheWay cs).lt hi ⟨hc, hq.within s, ht⟩ he⟩

/-- When nothing can happen any more, the waits for the headers are let expire. -/
theorem exists_stuck (h : Run (Det step) (new cfg memory now) as s) (hs : s.listeners.Held) :
    ∃ bs t, Run (Guarded Holding (Det step)) s bs t ∧ (t.Stuck ∧ t.Due) ∧ ∀ e ∈ bs, e.IsQuiet := by
  obtain ⟨ls, hl, -⟩ := listeners_of_run h
  have hg := h.guarded (G := Within (acceptedIn as).toFinset) fun e he s => within_acceptedIn he s
  have hr := ranked_onTheWay (acceptedIn as).toFinset
  have hcounted : s.server.Counted (acceptedIn as).toFinset := (ranked _).kept_run .new hg
  have hbegun : s.Begun := h.invariant (fun _ _ _ hi hst => hi.step (step_cases hst)) fun _ _ hc => by
    simp [System.new] at hc
  have hp : ∀ u : System, u.OnTheWay (acceptedIn as).toFinset → ¬ (u.Stuck ∧ u.Due) →
      ∃ es v, Run (Guarded Careful (Guarded (Within (acceptedIn as).toFinset) (Det step))) u es v ∧
        (v.rank (acceptedIn as).toFinset < u.rank (acceptedIn as).toFinset ∨ v.Stuck ∧ v.Due) ∧
        ∀ e ∈ es, e.IsQuiet := by
    intro u hu hrest
    by_cases hst : u.Stuck
    · let v : System := { u with now := u.now + headerTimeout }
      have hquiet : Event.IsQuiet (.tick (u.now + headerTimeout)) := .inr ⟨_, rfl⟩
      have htick : Guarded Careful (Guarded (Within (acceptedIn as).toFinset) (Det step)) u
          (.tick (u.now + headerTimeout)) v :=
        ⟨by simp [Careful], hquiet.within u, if_pos (le_add_of_nonneg_right (by norm_num [headerTimeout]))⟩
      have hdue : v.Due := fun c start hstart => add_le_add_left (hu.begun c start hstart) _
      by_cases hst' : v.Stuck
      · exact ⟨_, v, .single htick, .inr ⟨hst', hdue⟩, by simpa using hquiet⟩
      · obtain ⟨e, w, he, hew, hlt⟩ := exists_lower (hr.kept _ _ _ hu htick) hst'
        exact ⟨_, w, .cons htick (.single hew), .inl hlt, by simpa using ⟨hquiet, he⟩⟩
    · obtain ⟨e, v, he, hev, hlt⟩ := exists_lower hu hst
      exact ⟨_, v, .single hev, .inl hlt, by simpa using he⟩
  have hway : s.OnTheWay (acceptedIn as).toFinset := ⟨hcounted, hbegun, Listeners.owning_of_run hl, hs⟩
  obtain ⟨bs, t, hbs, ht, hq⟩ := hr.exists_rest hp hway
  refine ⟨bs, t, hbs.strengthen hr.kept (fun u e v hu hst => ?_) hway, ht, hq⟩
  exact ⟨(step_cases hst.2.2).holding hu.held, hst.2.2⟩

/-- Once something has made the server end, it can end from everywhere, without anything new from outside, where
the peers complete what is pending: unless an acceptor has been destroyed under a listener that is about to use
it. -/
theorem finishes (h : Run (Guarded Holding (Det step)) (new cfg memory now) as s)
    (hs : ∀ p, s.listeners.tasks p = .starting → s.listeners.holdsAcceptors = true)
    (he : ∃ e ∈ as, e.Ends cfg.server.runMode) :
    ∃ bs t, Run (Guarded Holding (Det step)) s bs t ∧ t.Finished ∧ ∀ e ∈ bs, e.IsQuiet := by
  have h := run_of_holding h
  obtain ⟨bs, t, hbs, ⟨hst, hd⟩, hq⟩ := exists_stuck h hs
  obtain ⟨e, hm, hend⟩ := he
  have hrun := h.append (run_of_holding hbs)
  have hdoomed := (doomed_iff hrun).2 ⟨e, List.mem_append_left _ hm, hend⟩
  have hfinished := (hst.finished_or_waiting hrun hd).resolve_right fun hw => hw.not_doomed hrun hst hdoomed
  exact ⟨bs, t, hbs, hfinished, hq⟩

/-- The signal comes while the header of a client is being read. -/
theorem finishes_connected : ∃ s,
    Run (Guarded Holding (Det step)) (new {} (fun _ => []) 0) (connects 0 ++ [.listener .signal]) s ∧
    ∃ bs t, Run (Guarded Holding (Det step)) s bs t ∧ t.Finished ∧ ∀ e ∈ bs, e.IsQuiet := by
  obtain ⟨s, h, hs⟩ := Lts.exists_guarded_run (G := Holding) (p := fun s : System => s.listeners.holdsAcceptors)
    (show (((connects 0 ++ [Event.listener .signal]).foldlM (fun s e => if Holding s e then step s e else none)
      (new {} (fun _ => []) 0)).any _) = true by decide +kernel)
  exact ⟨s, h, finishes h (fun _ _ => hs) ⟨.listener .signal, by simp, trivial⟩⟩

end System

end MarketBridge
