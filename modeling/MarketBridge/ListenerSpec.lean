import MarketBridge.Listener
import MarketBridge.RegistrySpec

/-!
# What stops the listeners

In single-request mode a listener leaves its loop after its first connection, and takes the other one out
only by closing its acceptor: an accept that completes before that is dispatched as well. In persistent mode
a listener leaves its loop for a shutdown or a failed accept, and both lead to the same teardown.
-/

namespace MarketBridge

open Lts (Run Det Guarded run_det_iff)

namespace ListenerTask

variable {task old new : ListenerTask}

/-- The listener holds a connection that it has not passed on. -/
def InHand (task : ListenerTask) : Prop := task = accepting (.ready .success) ∨ task = handling

/-- The listener has left its loop. -/
def IsPast (task : ListenerTask) : Prop := task = leaving ∨ (∃ p, task = uninstalling p) ∨ task = returned

/-- The listener takes no connection and does not come back into its loop. -/
structure Quiet (old new : ListenerTask) : Prop where
  inHand : new.InHand → old.InHand
  past : old.IsPast → new.IsPast

theorem Quiet.refl : Quiet task task := ⟨id, id⟩

theorem Quiet.trans {mid : ListenerTask} (h : Quiet old mid) (h' : Quiet mid new) : Quiet old new :=
  ⟨h.inHand ∘ h'.inHand, h'.past ∘ h.past⟩

theorem IsPast.not_inHand (h : task.IsPast) : ¬ task.InHand := by
  rcases h with rfl | ⟨p, rfl⟩ | rfl <;> rintro (h | h) <;> cases h

theorem Quiet.of_past (h : new.IsPast) : Quiet old new := ⟨fun hn => absurd hn h.not_inHand, fun _ => h⟩

theorem Quiet.of_not_past (h : ¬ old.IsPast) (hn : new.InHand → old.InHand) : Quiet old new :=
  ⟨hn, fun ho => absurd ho h⟩

theorem quiet_cancel : Quiet task task.cancel := by
  cases task with
  | accepting op =>
    cases op with
    | pending => exact .of_not_past (by rintro (h | ⟨p, h⟩ | h) <;> cases h) (by rintro (h | h) <;> cases h)
    | ready ec => exact .refl
  | _ => exact .refl

end ListenerTask

namespace Listeners

variable {ι : Type} {s t : Listeners ι}

theorem other_ne (p : Port) : p.other ≠ p := by cases p <;> nofun

theorem eq_or_eq_other (p q : Port) : q = p ∨ q = p.other := by cases p <;> cases q <;> simp [Port.other]

section

-- closing an acceptor touches the acceptors and their listeners only
variable (s : Listeners ι) (p : Port)

@[simp] theorem uninstallListener_cfg : (s.uninstallListener p).cfg = s.cfg := by
  unfold uninstallListener; split <;> rfl

@[simp] theorem uninstallListener_registry : (s.uninstallListener p).registry = s.registry := by
  unfold uninstallListener; split <;> rfl

@[simp] theorem uninstallListener_signals : (s.uninstallListener p).signals = s.signals := by
  unfold uninstallListener; split <;> rfl

@[simp] theorem uninstallListener_holdsAcceptors :
    (s.uninstallListener p).holdsAcceptors = s.holdsAcceptors := by
  unfold uninstallListener; split <;> rfl

@[simp] theorem uninstallListener_dispatched : (s.uninstallListener p).dispatched = s.dispatched := by
  unfold uninstallListener; split <;> rfl

end

/-! ### What one step can do -/

section

variable [DecidableEq ι] {a : Event ι}

inductive Step (s : Listeners ι) : Event ι → Listeners ι → Prop
  | leaveLoop {p : Port} (h : s.tasks p = .loop) (hp : s.registry.shutdownPending = true) :
      Step s (.checkShutdown p) (s.setTask p .leaving)
  | enterLoop {p : Port} (h : s.tasks p = .loop) (hp : s.registry.shutdownPending = false) :
      Step s (.checkShutdown p) (s.setTask p .starting)
  | startAccept {p : Port} (h : s.tasks p = .starting) :
      Step s (.startAccept p) (s.setTask p (.accepting (.start (s.isOpen p) .badDescriptor)))
  | accepted {p : Port} {ec : ErrorCode} (h : s.tasks p = .accepting .pending) :
      Step s (.accepted p ec) (s.setTask p (.accepting (.ready ec)))
  | resume {p : Port} {ec : ErrorCode} (h : s.tasks p = .accepting (.ready ec)) :
      Step s (.resume p) (s.setTask p (afterAccept ec))
  | dispatch {p : Port} (h : s.tasks p = .handling) :
      Step s (.dispatch p)
        { s.setTask p (if s.cfg.server.runMode = .SingleRequest then .leaving else .loop) with
          dispatched := s.dispatched ++ [p] }
  | cancelSignals {p : Port} (h : s.tasks p = .leaving) :
      Step s (.cancelSignals p) (s.uninstallSignalsHandler.setTask p (.uninstalling .http))
  | uninstallHttp {p : Port} (h : s.tasks p = .uninstalling .http) :
      Step s (.uninstall p) ((s.uninstallListener .http).setTask p (.uninstalling .https))
  | uninstallHttps {p : Port} (h : s.tasks p = .uninstalling .https) :
      Step s (.uninstall p) ((s.uninstallListener .https).setTask p .returned)
  | signal (h : s.signals = some .pending) : Step s .signal { s with signals := some (.ready .success) }
  | runSignalHandler {r : Registry ι} (h : s.signals = some (.ready .success))
      (hr : s.registry.step .scheduleShutdown = some r) :
      Step s .runSignalHandler { s with registry := r, signals := none }
  | dropSignalHandler {ec : ErrorCode} (h : s.signals = some (.ready ec)) (hec : ec ≠ .success) :
      Step s .runSignalHandler { s with signals := none }
  | closeAcceptors {k : Nat} {r : Registry ι} (hr : s.registry.step (.closeAcceptors k) = some r) :
      Step s (.registry (.closeAcceptors k)) (closeAcceptors { s with registry := r })
  | registry {a : Registry.Action ι} {r : Registry ι} (ha : ∀ k, a ≠ .closeAcceptors k)
      (hr : s.registry.step a = some r) : Step s (.registry a) { s with registry := r }

theorem act_eq_some {a : Registry.Action ι} (h : s.act a = some t) :
    ∃ r, s.registry.step a = some r ∧ t = { s with registry := r } := by
  obtain ⟨r, hr, rfl⟩ := Option.map_eq_some_iff.1 h
  exact ⟨r, hr, rfl⟩

theorem step_cases (h : step s a = some t) : Step s a t := by
  cases a with
  | checkShutdown p =>
    rw [step] at h
    split at h
    · rename_i hp
      cases h
      cases hs : s.registry.shutdownPending with
      | false => exact .enterLoop hp hs
      | true => exact .leaveLoop hp hs
    · cases h
  | startAccept p | accepted p ec | resume p | dispatch p | cancelSignals p =>
    rw [step] at h
    split at h
    · rename_i hp
      cases h
      constructor
      exact hp
    · cases h
  | uninstall p =>
    rw [step] at h
    split at h
    · rename_i hp
      cases h
      exact .uninstallHttp hp
    · rename_i hp
      cases h
      exact .uninstallHttps hp
    · cases h
  | signal =>
    rw [step] at h
    split at h
    · rename_i hp
      cases h
      exact .signal hp
    · cases h
  | runSignalHandler =>
    rw [step] at h
    split at h
    · rename_i ec hp
      split at h
      · rename_i hec
        obtain ⟨s', hs', rfl⟩ := Option.map_eq_some_iff.1 h
        obtain ⟨r, hr, rfl⟩ := act_eq_some hs'
        rw [checkEc, decide_eq_true_iff] at hec
        subst hec
        exact .runSignalHandler hp hr
      · rename_i hec
        cases h
        refine .dropSignalHandler hp ?_
        rwa [checkEc, decide_eq_true_iff] at hec
    · cases h
  | registry a =>
    cases a with
    | closeAcceptors k =>
      have h : (s.act (.closeAcceptors k)).map (·.closeAcceptors) = some t := h
      obtain ⟨s', hs', rfl⟩ := Option.map_eq_some_iff.1 h
      obtain ⟨r, hr, rfl⟩ := act_eq_some hs'
      exact .closeAcceptors hr
    | _ =>
      obtain ⟨r, hr, rfl⟩ := act_eq_some h
      exact .registry nofun hr

theorem Step.eq (h : Step s a t) : step s a = some t := by
  cases h with
  | leaveLoop h hp | enterLoop h hp => simp only [step, h, hp]; rfl
  | startAccept h | accepted h | resume h | dispatch h | cancelSignals h | uninstallHttp h | uninstallHttps h
  | signal h => simp only [step, h]
  | runSignalHandler h hr => simp only [step, h, act, hr]; rfl
  | dropSignalHandler h hec => simp only [step, h, checkEc, hec]; rfl
  | closeAcceptors hr => simp only [step, act, hr]; rfl
  | @registry b r hb hr =>
    cases b with
    | closeAcceptors k => exact absurd rfl (hb k)
    | _ => simp only [step, act, hr]; rfl

/-- The registry takes a step of its own or none. -/
theorem Step.registry_step (h : Step s a t) :
    t.registry = s.registry ∨ ∃ b, s.registry.step b = some t.registry := by
  cases h with
  | runSignalHandler _ hr | registry _ hr => exact .inr ⟨_, hr⟩
  | closeAcceptors hr => exact .inr ⟨_, hr⟩
  | uninstallHttp => exact .inl (uninstallListener_registry s .http)
  | uninstallHttps => exact .inl (uninstallListener_registry s .https)
  | _ => exact .inl rfl

theorem Step.registry_inv (h : Step s a t) (hi : s.registry.Inv) : t.registry.Inv := by
  rcases h.registry_step with he | ⟨b, hb⟩
  · rwa [he]
  · exact hi.step (Registry.step_cases hb)

theorem Step.cfg (h : Step s a t) : t.cfg = s.cfg := by
  cases h with
  | uninstallHttp => exact uninstallListener_cfg s .http
  | uninstallHttps => exact uninstallListener_cfg s .https
  | _ => rfl

end

/-! ### Single-request mode -/

section

open ListenerTask

theorem quiet_setTask {p : Port} {task : ListenerTask} (h : Quiet (s.tasks p) task) (q : Port) :
    Quiet (s.tasks q) ((s.setTask p task).tasks q) := by
  show Quiet (s.tasks q) (Function.update s.tasks p task q)
  rcases eq_or_ne q p with rfl | hq
  · rwa [Function.update_self]
  · rw [Function.update_of_ne hq]
    exact .refl

theorem quiet_close (p q : Port) : Quiet (s.tasks q) ((s.close p).tasks q) := quiet_setTask quiet_cancel q

theorem quiet_uninstallListener (p q : Port) : Quiet (s.tasks q) ((s.uninstallListener p).tasks q) := by
  unfold uninstallListener
  split
  · exact quiet_close p q
  · exact .refl

theorem afterAccept_inHand {ec : ErrorCode} (h : (afterAccept ec).InHand) : ec = .success := by
  unfold afterAccept at h
  split at h
  · exact absurd h (IsPast.not_inHand (.inr (.inr rfl)))
  · split at h
    · exact absurd h (IsPast.not_inHand (.inl rfl))
    · rename_i hec
      simpa using hec

/-- A connection has been accepted on the port. -/
def Taken (s : Listeners ι) (p : Port) : Prop := p ∈ s.dispatched ∨ (s.tasks p).InHand

/-- An accept completes with a connection only if none has been accepted on the other port. -/
def Alone (s : Listeners ι) : Event ι → Prop
  | .accepted p .success => ¬ s.Taken p.other
  | _ => True

instance (s : Listeners ι) (p : Port) : Decidable (s.Taken p) := by
  unfold Taken InHand; infer_instance

instance (s : Listeners ι) (a : Event ι) : Decidable (s.Alone a) := by
  unfold Alone; split <;> infer_instance

structure Single (s : Listeners ι) : Prop where
  mode : s.cfg.server.runMode = .SingleRequest
  past : ∀ p ∈ s.dispatched, (s.tasks p).IsPast
  nodup : s.dispatched.Nodup
  alone : ∀ p, s.Taken p → ¬ s.Taken p.other

theorem Single.new {cfg : Config} (hmode : cfg.server.runMode = .SingleRequest) :
    Single (Listeners.new cfg : Listeners ι) where
  mode := hmode
  past := nofun
  nodup := List.nodup_nil
  alone := by
    rintro p (h | h)
    · cases h
    · have hp : (Listeners.new cfg : Listeners ι).tasks p =
        if hasAcceptor cfg p then .loop else .returned := rfl
      rw [hp] at h
      split at h <;> rcases h with h | h <;> cases h

theorem Single.quiet (hi : s.Single) (hc : t.cfg = s.cfg) (hd : t.dispatched = s.dispatched)
    (hq : ∀ q, Quiet (s.tasks q) (t.tasks q)) : t.Single := by
  have htaken (q : Port) (h : t.Taken q) : s.Taken q := by
    rcases h with h | h
    · exact .inl (hd ▸ h)
    · exact .inr ((hq q).inHand h)
  refine ⟨by rw [hc]; exact hi.mode, ?_, by rw [hd]; exact hi.nodup, ?_⟩
  · intro p hp
    rw [hd] at hp
    exact (hq p).past (hi.past p hp)
  · intro p hp ho
    exact hi.alone p (htaken p hp) (htaken _ ho)

theorem Single.accepted {p : Port} (hi : s.Single) (h : s.tasks p = .accepting .pending)
    (ha : ¬ s.Taken p.other) : (s.setTask p (.accepting (.ready .success))).Single := by
  have hnot : p ∉ s.dispatched := by
    intro hp
    rcases h ▸ hi.past p hp with h | ⟨_, h⟩ | h <;> cases h
  have hother : (s.setTask p (.accepting (.ready .success))).tasks p.other = s.tasks p.other :=
    Function.update_of_ne (other_ne p) _ _
  refine ⟨hi.mode, fun q hq => ?_, hi.nodup, fun q hq ho => ?_⟩
  · rcases eq_or_eq_other p q with rfl | rfl
    · exact absurd hq hnot
    · rw [hother]
      exact hi.past _ hq
  · -- one of the two ports is the other one, and it has no connection
    have : (s.setTask p (.accepting (.ready .success))).Taken p.other := by
      rcases eq_or_eq_other p q with rfl | rfl
      · exact ho
      · exact hq
    rw [Taken, hother] at this
    exact ha this

theorem Single.length_le (hi : s.Single) : s.dispatched.length ≤ 1 := by
  match hd : s.dispatched with
  | [] | [_] => simp
  | p :: q :: rest =>
    have hn := hi.nodup
    rw [hd] at hn
    rcases eq_or_eq_other p q with rfl | rfl
    · simp at hn
    · exact absurd (.inl (by simp [hd])) (hi.alone p (.inl (by simp [hd])))

variable [DecidableEq ι] {a : Event ι}

/-- Only an accept takes a connection. -/
theorem Step.quiet (h : Step s a t) (hmode : s.cfg.server.runMode = .SingleRequest)
    (ha : ∀ p, a ≠ .accepted p .success) (q : Port) : Quiet (s.tasks q) (t.tasks q) := by
  have hloop {task : ListenerTask} (hl : task = .loop ∨ task = .starting ∨ ∃ op, task = .accepting op) :
      ¬ task.IsPast := by
    rcases hl with rfl | rfl | ⟨op, rfl⟩ <;> rintro (h | ⟨p, h⟩ | h) <;> cases h
  cases h with
  | leaveLoop => exact quiet_setTask (.of_past (.inl rfl)) q
  | enterLoop h =>
    refine quiet_setTask (.of_not_past (hloop (.inl h)) ?_) q
    rintro (h | h) <;> cases h
  | @startAccept p h =>
    refine quiet_setTask (.of_not_past (hloop (.inr (.inl h))) ?_) q
    cases s.isOpen p <;> rintro (h | h) <;> cases h
  | @accepted p ec h =>
    refine quiet_setTask (.of_not_past (hloop (.inr (.inr ⟨_, h⟩))) ?_) q
    rintro (hr | hr)
    · cases hr
      exact absurd rfl (ha p)
    · cases hr
  | resume h =>
    refine quiet_setTask (.of_not_past (hloop (.inr (.inr ⟨_, h⟩))) fun hn => .inl ?_) q
    rw [h, afterAccept_inHand hn]
  | dispatch h =>
    rw [if_pos hmode]
    exact quiet_setTask (.of_past (.inl rfl)) q
  | cancelSignals => exact quiet_setTask (s := s.uninstallSignalsHandler) (.of_past (.inr (.inl ⟨_, rfl⟩))) q
  | uninstallHttp =>
    exact (quiet_uninstallListener .http q).trans (quiet_setTask (.of_past (.inr (.inl ⟨_, rfl⟩))) q)
  | uninstallHttps =>
    exact (quiet_uninstallListener .https q).trans (quiet_setTask (.of_past (.inr (.inr rfl))) q)
  | closeAcceptors =>
    exact (quiet_close (s := { s with registry := _ }) .http q).trans (quiet_close .https q)
  | _ => exact .refl

theorem Step.dispatched (h : Step s a t) : t.dispatched = s.dispatched ∨
    ∃ p, a = .dispatch p ∧ s.tasks p = .handling ∧ t.dispatched = s.dispatched ++ [p] := by
  cases h with
  | dispatch h => exact .inr ⟨_, rfl, h, rfl⟩
  | uninstallHttp => exact .inl (uninstallListener_dispatched s .http)
  | uninstallHttps => exact .inl (uninstallListener_dispatched s .https)
  | _ => exact .inl rfl

theorem Single.step (hi : s.Single) (h : Step s a t) (ha : s.Alone a) : t.Single := by
  by_cases hs : ∃ p, a = .accepted p .success
  · obtain ⟨p, rfl⟩ := hs
    cases h with
    | accepted h => exact hi.accepted h ha
  · have hq := h.quiet hi.mode (not_exists.1 hs)
    rcases h.dispatched with hd | ⟨p, rfl, hp, hd⟩
    · exact hi.quiet h.cfg hd hq
    · have hnot : p ∉ s.dispatched := by
        intro hm
        rcases hp ▸ hi.past p hm with h | ⟨_, h⟩ | h <;> cases h
      have htaken (q : Port) (hq' : t.Taken q) : s.Taken q := by
        rcases hq' with hm | hm
        · rw [hd, List.mem_append, List.mem_singleton] at hm
          rcases hm with hm | rfl
          · exact .inl hm
          · exact .inr (.inr hp)
        · exact .inr ((hq q).inHand hm)
      refine ⟨by rw [h.cfg]; exact hi.mode, fun q hm => ?_, ?_,
        fun q hq' ho => hi.alone q (htaken q hq') (htaken _ ho)⟩
      · rw [hd, List.mem_append, List.mem_singleton] at hm
        rcases hm with hm | rfl
        · exact (hq q).past (hi.past q hm)
        · cases h with
          | dispatch =>
            rw [if_pos hi.mode]
            exact .inl (Function.update_self ..)
      · rw [hd]
        exact Registry.nodup_snoc hi.nodup hnot

/-- A connection in hand is dispatched when its listener goes on. -/
theorem exists_dispatch {p : Port} (h : (s.tasks p).InHand) : ∃ as t, Run (Det step) s as t ∧
    t.dispatched = s.dispatched ++ [p] ∧ ∀ q, q ≠ p → t.tasks q = s.tasks q := by
  have hhandling (s : Listeners ι) (h : s.tasks p = .handling) : ∃ t, Run (Det step) s [.dispatch p] t ∧
      t.dispatched = s.dispatched ++ [p] ∧ ∀ q, q ≠ p → t.tasks q = s.tasks q := by
    refine ⟨_, .single (Step.dispatch h).eq, rfl, ?_⟩
    intro q hq
    exact Function.update_of_ne hq _ _
  rcases h with h | h
  · obtain ⟨t, ht, hd, ho⟩ := hhandling (s.setTask p .handling) (Function.update_self ..)
    refine ⟨_, t, .cons (Step.resume h).eq ht, hd, fun q hq => ?_⟩
    rw [ho q hq]
    exact Function.update_of_ne hq _ _
  · obtain ⟨t, ht, hd, ho⟩ := hhandling s h
    exact ⟨_, t, ht, hd, ho⟩

/-- Where the condition fails a second connection can be dispatched. -/
theorem exists_second_dispatch {p : Port} (h : s.tasks p = .accepting .pending) (ht : s.Taken p.other) :
    ∃ as t, Run (Det step) s (.accepted p .success :: as) t ∧ 2 ≤ t.dispatched.length := by
  have ha := (Step.accepted h : Step s (.accepted p .success) _).eq
  have hself : (s.setTask p (.accepting (.ready .success))).tasks p = .accepting (.ready .success) :=
    Function.update_self ..
  have hother : (s.setTask p (.accepting (.ready .success))).tasks p.other = s.tasks p.other :=
    Function.update_of_ne (other_ne p) _ _
  rcases ht with ht | ht
  · obtain ⟨as, t, hr, hd, -⟩ := exists_dispatch (.inl hself)
    refine ⟨as, t, .cons ha hr, ?_⟩
    have hpos : 0 < s.dispatched.length := List.length_pos_of_mem ht
    rw [hd, List.length_append]
    show 2 ≤ s.dispatched.length + 1
    omega
  · rw [← hother] at ht
    obtain ⟨as, u, hr, hd, ho⟩ := exists_dispatch ht
    rw [← ho p (other_ne p).symm] at hself
    obtain ⟨bs, t, hr', hd', -⟩ := exists_dispatch (.inl hself)
    refine ⟨as ++ bs, t, .cons ha (hr.append hr'), ?_⟩
    rw [hd', hd]
    simp only [List.length_append, List.length_singleton]
    omega

/-- Single-request mode dispatches at most one connection where an accept completes with a connection only
if the listener of the other port has not accepted one. -/
theorem single_request_once {cfg : Config} (hmode : cfg.server.runMode = .SingleRequest)
    {as : List (Event ι)} (h : Run (Guarded Alone (Det step)) (new cfg) as s) : s.dispatched.length ≤ 1 :=
  (h.invariant (I := Single) (fun _ _ _ hi ha => hi.step (step_cases ha.2) ha.1) (.new hmode)).length_le

def singleRequestConfig : Config := { server := { runMode := .SingleRequest } }

def acceptBoth : List (Event Unit) :=
  [.checkShutdown .http, .startAccept .http, .checkShutdown .https, .startAccept .https]

/-- The HTTPS accept fails after the HTTP listener has closed its acceptor. -/
theorem single_request_once_http : ∃ s : Listeners Unit,
    Run (Guarded Alone (Det step)) (new singleRequestConfig)
      (acceptBoth ++ [.accepted .http .success, .resume .http, .dispatch .http, .cancelSignals .http,
        .uninstall .http, .uninstall .http, .resume .https]) s ∧
      s.dispatched.length ≤ 1 := by
  have hrun : ∃ s : Listeners Unit, Run (Guarded Alone (Det step)) (new singleRequestConfig)
      (acceptBoth ++ [.accepted .http .success, .resume .http, .dispatch .http, .cancelSignals .http,
        .uninstall .http, .uninstall .http, .resume .https]) s := by
    rw [Lts.guarded_det]
    exact ⟨_, run_det_iff.2 rfl⟩
  obtain ⟨s, h⟩ := hrun
  exact ⟨s, h, single_request_once rfl h⟩

/-- Both accepts complete before either listener goes on, and both connections are dispatched. -/
theorem two_accepts_two_dispatched : ∃ s : Listeners Unit,
    Run (Det step) (new singleRequestConfig)
      (acceptBoth ++ [.accepted .http .success, .accepted .https .success,
        .resume .http, .resume .https, .dispatch .http, .dispatch .https]) s ∧
      s.dispatched = [.http, .https] :=
  ⟨_, run_det_iff.2 rfl, rfl⟩

end

/-! ### Persistent mode -/

/-- An accept that ends its listener. -/
def Failed (ec : ErrorCode) : Prop := ec ≠ .success ∧ ec ≠ .operationAborted

/-- Both acceptors are open, and the signal handler waits or is about to call `schedule_shutdown`. -/
structure Serving (s : Listeners ι) : Prop where
  isOpen : ∀ p, hasAcceptor s.cfg p = true → s.isOpen p = true
  installed : s.signals = some .pending ∨ s.signals = some (.ready .success)

/-- The task of a listener that nothing has stopped. -/
def Works : ListenerTask → Prop
  | .accepting (.ready ec) => ¬ Failed ec
  | .leaving | .uninstalling _ => False
  | _ => True

structure Up (s : Listeners ι) : Prop where
  mode : s.cfg.server.runMode = .Persistent
  isOpen : ∀ p, s.isOpen p = hasAcceptor s.cfg p
  installed : s.signals = some .pending ∨ s.signals = some (.ready .success)
  works : ∀ p, Works (s.tasks p)
  absent : ∀ p, hasAcceptor s.cfg p = false → s.tasks p = .returned

theorem Up.new {cfg : Config} (hmode : cfg.server.runMode = .Persistent) :
    Up (Listeners.new cfg : Listeners ι) where
  mode := hmode
  isOpen _ := rfl
  installed := .inl rfl
  works p := by
    show Works (if hasAcceptor cfg p then .loop else .returned)
    split <;> trivial
  absent p hp := by
    show (if hasAcceptor cfg p then ListenerTask.loop else .returned) = _
    rw [show hasAcceptor cfg p = false from hp]; rfl

theorem Up.setTask {p : Port} {task : ListenerTask} (hi : s.Up) (hp : s.tasks p ≠ .returned)
    (hw : Works task) : (s.setTask p task).Up where
  mode := hi.mode
  isOpen := hi.isOpen
  installed := hi.installed
  works q := by
    show Works (Function.update s.tasks p task q)
    rcases eq_or_ne q p with rfl | hq
    · rwa [Function.update_self]
    · rw [Function.update_of_ne hq]
      exact hi.works q
  absent q hq := by
    have hne : q ≠ p := by
      rintro rfl
      exact hp (hi.absent q hq)
    show Function.update s.tasks p task q = _
    rw [Function.update_of_ne hne]
    exact hi.absent q hq

theorem Up.serving (hi : s.Up) : s.Serving := ⟨fun p hp => (hi.isOpen p).trans hp, hi.installed⟩

section

variable [DecidableEq ι] {a : Event ι}

theorem works_afterAccept {ec : ErrorCode} (h : ¬ Failed ec) : Works (afterAccept ec) := by
  unfold afterAccept
  split
  · trivial
  · rename_i ha
    split
    · rename_i hc
      refine h ⟨?_, by simpa using ha⟩
      simpa using hc
    · trivial

/-- What a step can do while no shutdown has been called. -/
theorem Up.step (hi : s.Up) (hr : s.registry.Inv) (hc : s.registry.calls = []) (h : Step s a t)
    (ha : ∀ p ec, a = .accepted p ec → ¬ Failed ec) : t.registry.calls ≠ [] ∨ t.Up := by
  have hp : s.registry.shutdownPending = false := by
    cases hr.shutdown with
    | calm hp => exact hp
    | pending _ hk => rw [hc] at hk; cases hk
  have hne {p : Port} {task : ListenerTask} (h : s.tasks p = task) (ht : task ≠ .returned) :
      s.tasks p ≠ .returned := by rwa [h]
  cases h with
  | leaveLoop _ hp' => rw [hp] at hp'; cases hp'
  | enterLoop h => exact .inr (hi.setTask (hne h nofun) trivial)
  | @startAccept p h =>
    have ho : s.isOpen p = true := by
      rw [hi.isOpen p]
      by_contra hno
      rw [hi.absent p (by simpa using hno)] at h
      cases h
    refine .inr (hi.setTask (hne h nofun) ?_)
    rw [ho]; trivial
  | accepted h => exact .inr (hi.setTask (hne h nofun) (ha _ _ rfl))
  | @resume p ec h =>
    have hw := hi.works p
    rw [h] at hw
    exact .inr (hi.setTask (hne h nofun) (works_afterAccept hw))
  | @dispatch p h =>
    have hset : (s.setTask p .loop).Up := hi.setTask (hne h nofun) trivial
    rw [if_neg (by rw [hi.mode]; nofun)]
    exact .inr ⟨hset.mode, hset.isOpen, hset.installed, hset.works, hset.absent⟩
  | @cancelSignals p h | @uninstallHttp p h | @uninstallHttps p h =>
    have hw := hi.works p
    rw [h] at hw
    exact hw.elim
  | signal => exact .inr ⟨hi.mode, hi.isOpen, .inr rfl, hi.works, hi.absent⟩
  | runSignalHandler _ hr' =>
    refine .inl ?_
    cases Registry.step_cases hr'
    rw [hc]; nofun
  | dropSignalHandler h hec =>
    rcases hi.installed with hs | hs <;> rw [h] at hs <;> cases hs
    exact absurd rfl hec
  | closeAcceptors hr' =>
    cases Registry.step_cases hr' with
    | closeAcceptors hk => rw [hc] at hk; cases hk
  | registry => exact .inr ⟨hi.mode, hi.isOpen, hi.installed, hi.works, hi.absent⟩

theorem calls_ne_nil {r r' : Registry ι} {b : Registry.Action ι} (h : Registry.Step r b r')
    (hc : r.calls ≠ []) : r'.calls ≠ [] := by
  cases h with
  | scheduleShutdown => exact List.append_ne_nil_of_left_ne_nil hc _
  | lose | win | collect | stopNext | closeAcceptors =>
    show List.set _ _ _ ≠ []
    rw [ne_eq, List.set_eq_nil_iff]
    exact hc
  | _ => exact hc

theorem Step.calls_ne_nil (h : Step s a t) (hc : s.registry.calls ≠ []) : t.registry.calls ≠ [] := by
  rcases h.registry_step with he | ⟨b, hb⟩
  · rwa [he]
  · exact Listeners.calls_ne_nil (Registry.step_cases hb) hc

/-- Until a shutdown is called or an accept fails, both acceptors are open and the handler is installed. -/
theorem up_of_run {cfg : Config} (hmode : cfg.server.runMode = .Persistent) {as : List (Event ι)}
    (h : Run (Det Listeners.step) (Listeners.new cfg) as s) : s.registry.Inv ∧
    ((∃ p ec, .accepted p ec ∈ as ∧ Failed ec) ∨ s.registry.calls ≠ [] ∨ s.Up) := by
  refine h.trace_invariant (I := fun as s => s.registry.Inv ∧
    ((∃ p ec, .accepted p ec ∈ as ∧ Failed ec) ∨ s.registry.calls ≠ [] ∨ s.Up)) ?_ ?_
  · exact ⟨.new, .inr (.inr (.new hmode))⟩
  · rintro as s a t ⟨hr, hi⟩ hst
    have hst := step_cases hst
    refine ⟨hst.registry_inv hr, ?_⟩
    rcases hi with ⟨p, ec, hm, hf⟩ | hc | hu
    · exact .inl ⟨p, ec, List.mem_append_left _ hm, hf⟩
    · exact .inr (.inl (hst.calls_ne_nil hc))
    · by_cases hc : s.registry.calls = []
      · by_cases hf : ∃ p ec, a = .accepted p ec ∧ Failed ec
        · obtain ⟨p, ec, rfl, hf⟩ := hf
          exact .inl ⟨p, ec, List.mem_append_right _ (List.mem_singleton_self _), hf⟩
        · exact .inr (hu.step hr hc hst fun p ec he hec => hf ⟨p, ec, he, hec⟩)
      · exact .inr (.inl (hst.calls_ne_nil hc))

end

/-! ### The teardown -/

/-- Acceptors that have been moved out are closed. -/
def Released (s : Listeners ι) : Prop := s.holdsAcceptors = false → ∀ p, s.isOpen p = false

theorem close_isOpen (s : Listeners ι) (p : Port) : (s.close p).isOpen p = false := Function.update_self ..

theorem close_isOpen_of {p q : Port} (h : s.isOpen q = false) : (s.close p).isOpen q = false := by
  show Function.update s.isOpen p false q = false
  rcases eq_or_ne q p with rfl | hq
  · exact Function.update_self ..
  · rwa [Function.update_of_ne hq]

theorem uninstallListener_isOpen (hr : s.Released) (p : Port) : (s.uninstallListener p).isOpen p = false := by
  unfold uninstallListener
  split
  · exact close_isOpen s p
  · rename_i h
    cases hh : s.holdsAcceptors with
    | false => exact hr hh p
    | true => exact Bool.eq_false_iff.2 fun ho => h ⟨hh, ho⟩

theorem uninstallListener_isOpen_of {p q : Port} (h : s.isOpen q = false) :
    (s.uninstallListener p).isOpen q = false := by
  unfold uninstallListener
  split
  · exact close_isOpen_of h
  · exact h

theorem Released.uninstallListener (hr : s.Released) (p : Port) : (s.uninstallListener p).Released := by
  intro hh q
  rw [uninstallListener_holdsAcceptors] at hh
  exact uninstallListener_isOpen_of (hr hh q)

theorem closeAcceptors_released (s : Listeners ι) : s.closeAcceptors.Released := by
  rintro - (_ | _)
  · show ((s.close .http).close .https).isOpen .http = false
    exact close_isOpen_of (close_isOpen s .http)
  · exact close_isOpen (s.close .http) .https

section

variable [DecidableEq ι] {a : Event ι}

theorem Released.step (hr : s.Released) (h : Step s a t) : t.Released := by
  cases h with
  | uninstallHttp => exact hr.uninstallListener .http
  | uninstallHttps => exact hr.uninstallListener .https
  | closeAcceptors => exact closeAcceptors_released _
  | _ => exact hr

/-- The next four steps of a listener whose accept has failed. -/
theorem exists_teardown (hr : s.Released) {p : Port} {ec : ErrorCode} (h : s.tasks p = .accepting (.ready ec))
    (hf : Failed ec) : ∃ t, Run (Det step) s [.resume p, .cancelSignals p, .uninstall p, .uninstall p] t ∧
      (∀ q, t.isOpen q = false) ∧ t.signals = s.signals.map (·.close .operationAborted) := by
  have hleave : afterAccept ec = .leaving := by
    unfold afterAccept
    rw [if_neg (by simpa using hf.2), if_pos (by simpa using hf.1)]
  let s₁ := s.setTask p .leaving
  let s₂ := s₁.uninstallSignalsHandler.setTask p (.uninstalling .http)
  let s₃ := (s₂.uninstallListener .http).setTask p (.uninstalling .https)
  let s₄ := (s₃.uninstallListener .https).setTask p .returned
  have h₁ : Step s (.resume p) s₁ := by
    have := Step.resume h
    rwa [hleave] at this
  have h₂ : Step s₁ (.cancelSignals p) s₂ := .cancelSignals (Function.update_self ..)
  have h₃ : Step s₂ (.uninstall p) s₃ := .uninstallHttp (Function.update_self ..)
  have h₄ : Step s₃ (.uninstall p) s₄ := .uninstallHttps (Function.update_self ..)
  refine ⟨s₄, .cons h₁.eq (.cons h₂.eq (.cons h₃.eq (.single h₄.eq))), ?_, ?_⟩
  · have hr₂ : s₂.Released := hr
    have hr₃ : s₃.Released := hr₂.uninstallListener .http
    rintro (_ | _)
    · exact uninstallListener_isOpen_of (s := s₃) (uninstallListener_isOpen hr₂ .http)
    · exact uninstallListener_isOpen hr₃ .https
  · calc s₄.signals
        _ = s₃.signals := uninstallListener_signals s₃ .https
        _ = s₂.signals := uninstallListener_signals s₂ .http

theorem released_of_run {cfg : Config} {as : List (Event ι)}
    (h : Run (Det Listeners.step) (Listeners.new cfg) as s) : s.Released :=
  h.invariant (I := Released) (fun _ _ _ hr hst => hr.step (step_cases hst)) nofun

/-- In persistent mode both acceptors stay open and the signal handler stays installed until a shutdown is
called or an accept fails; the listener of a failed accept cancels the handler and closes both. -/
theorem persistent_listeners {cfg : Config} (hmode : cfg.server.runMode = .Persistent) {as : List (Event ι)}
    (h : Run (Det Listeners.step) (Listeners.new cfg) as s) :
    (s.registry.calls = [] → (∀ p ec, .accepted p ec ∈ as → ¬ Failed ec) → s.Serving) ∧
    ∀ p ec, s.tasks p = .accepting (.ready ec) → Failed ec →
      ∃ t, Run (Det Listeners.step) s [.resume p, .cancelSignals p, .uninstall p, .uninstall p] t ∧
        (∀ q, t.isOpen q = false) ∧ t.signals = s.signals.map (·.close .operationAborted) := by
  refine ⟨fun hc hf => ?_, fun p ec hp hec => exists_teardown (released_of_run h) hp hec⟩
  rcases (up_of_run hmode h).2 with ⟨p, ec, hm, hec⟩ | hcalls | hu
  · exact absurd hec (hf p ec hm)
  · exact absurd hc hcalls
  · exact hu.serving

/-- A connection is handled and the next accept is pending. -/
theorem persistent_listeners_one : ∃ s : Listeners Unit,
    Run (Det Listeners.step) (Listeners.new {})
      (acceptBoth ++ [.accepted .http .success, .resume .http, .dispatch .http, .checkShutdown .http,
        .startAccept .http]) s ∧
      s.Serving := by
  have hrun : ∃ s : Listeners Unit, Run (Det Listeners.step) (Listeners.new {})
      (acceptBoth ++ [.accepted .http .success, .resume .http, .dispatch .http, .checkShutdown .http,
        .startAccept .http]) s ∧ s.registry.calls = [] := ⟨_, run_det_iff.2 rfl, rfl⟩
  obtain ⟨s, h, hc⟩ := hrun
  refine ⟨s, h, (persistent_listeners rfl h).1 hc ?_⟩
  rintro p ec hm ⟨hne, -⟩
  simp only [acceptBoth, List.cons_append, List.nil_append, List.mem_cons, Event.accepted.injEq,
    List.not_mem_nil, or_false, reduceCtorEq, false_or] at hm
  exact hne hm.2

/-- `EMFILE`. -/
def tooManyOpenFiles : ErrorCode := .other 24

/-- An accept on the HTTP port that finds too many files open closes the HTTPS acceptor too, without a shutdown. -/
theorem failed_accept_stops_all : ∃ s : Listeners Unit,
    Run (Det Listeners.step) (Listeners.new {})
      (acceptBoth ++ [.accepted .http tooManyOpenFiles, .resume .http, .cancelSignals .http,
        .uninstall .http, .uninstall .http]) s ∧
      s.registry.calls = [] ∧ s.isOpen .https = false ∧ s.signals = some (.ready .operationAborted) :=
  ⟨_, run_det_iff.2 rfl, rfl, rfl, rfl⟩

end

end Listeners

end MarketBridge
