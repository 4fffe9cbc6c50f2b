import MarketBridge.Registry
import Mathlib.Data.List.Nodup

/-!
# No session slips past a shutdown

`Listed` says what the list of weak pointers holds, `Shutdown` where the one call of `schedule_shutdown` that
has won stands and how far it has stopped the sessions it has collected.
-/

namespace MarketBridge

/-- A call that has not won the compare-exchange. -/
def ShutdownCall.IsPassive {ι : Type} (c : ShutdownCall ι) : Prop := c = .called ∨ c = .returned

/-- The call has collected the sessions. -/
def ShutdownCall.hasCollected {ι : Type} : ShutdownCall ι → Bool
  | stopping _ _ | finished => true
  | _ => false

namespace Registry

open Lts (Run Det run_det_unique)

variable {ι : Type} {r r' : Registry ι}

/-! ### Where the shutdown stands -/

theorem getElem?_snoc {α : Type} {l : List α} {k : Nat} {x y : α} (h : l[k]? = some x) :
    (l ++ [y])[k]? = some x := by
  rw [List.getElem?_append_left (List.getElem?_eq_some_iff.1 h).1, h]

theorem of_getElem?_snoc {α : Type} {l : List α} {k : Nat} {x y : α} (h : (l ++ [y])[k]? = some x) :
    l[k]? = some x ∨ x = y := by
  rw [List.getElem?_append] at h
  split at h
  · exact .inl h
  · exact .inr (by simpa using List.mem_of_getElem? h)

theorem of_getElem?_set {α : Type} {l : List α} {j k : Nat} {x y : α} (h : (l.set k y)[j]? = some x) :
    l[j]? = some x ∨ x = y := by
  rw [List.getElem?_set] at h
  split at h
  · exact .inr (by simp_all)
  · exact .inl h

/-- How far a call that has won the compare-exchange has come. -/
def Progress (stops : List ι) : ShutdownCall ι → Prop
  | .won => stops = []
  | .stopping active rest => active = stops ++ rest ∧ active.Nodup
  | .finished => stops.Nodup
  | _ => False

/-- Either no call has won, or one has, and it alone stops sessions. -/
inductive Shutdown (r : Registry ι) : Prop
  | calm (hp : r.shutdownPending = false) (hc : ∀ c ∈ r.calls, c = .called) (hs : r.stops = [])
  | pending {k : Nat} {w : ShutdownCall ι} (hp : r.shutdownPending = true) (hk : r.calls[k]? = some w)
      (ho : ∀ (j : Nat) (c : ShutdownCall ι), j ≠ k → r.calls[j]? = some c → c.IsPassive)
      (hw : Progress r.stops w)

theorem Progress.not_passive {stops : List ι} {c : ShutdownCall ι} (h : Progress stops c) :
    ¬ c.IsPassive := by
  rintro (rfl | rfl) <;> exact h

/-- The steps of the winning call are those of a call that is not passive. -/
theorem Shutdown.winner {k : Nat} {w : ShutdownCall ι} (hi : r.Shutdown) (hk : r.calls[k]? = some w)
    (hw : ¬ w.IsPassive) :
    r.shutdownPending = true ∧ Progress r.stops w ∧
      ∀ (j : Nat) (c : ShutdownCall ι), j ≠ k → r.calls[j]? = some c → c.IsPassive := by
  cases hi with
  | calm hp hc hs => exact absurd (.inl (hc w (List.mem_of_getElem? hk))) hw
  | @pending k' w' hp hk' ho hw' =>
    by_cases hkk : k = k'
    · subst hkk
      obtain rfl : w = w' := by simpa [hk] using hk'
      exact ⟨hp, hw', ho⟩
    · exact absurd (ho k w hkk hk) hw

/-- The winning call goes on. -/
theorem Shutdown.advance {k : Nat} {w w' : ShutdownCall ι} (hi : r.Shutdown) (hk : r.calls[k]? = some w)
    (hw : ¬ w.IsPassive) (hc : r'.calls = r.calls.set k w') (hp : r'.shutdownPending = r.shutdownPending)
    (hw' : Progress r.stops w → Progress r'.stops w') : r'.Shutdown := by
  obtain ⟨hp', hpr, ho⟩ := hi.winner hk hw
  have hlt : k < r.calls.length := (List.getElem?_eq_some_iff.1 hk).1
  refine .pending (hp.trans hp') (by rw [hc, List.getElem?_set_self hlt]) (fun j c hj hjc => ?_) (hw' hpr)
  rw [hc, List.getElem?_set_ne (Ne.symm hj)] at hjc
  exact ho j c hj hjc

theorem Shutdown.pending_of_hasCollected {k : Nat} {w : ShutdownCall ι} (hs : r.Shutdown)
    (hk : r.calls[k]? = some w) (hw : w.hasCollected = true) : r.shutdownPending = true := by
  refine (hs.winner hk ?_).1
  rintro (rfl | rfl) <;> simp [ShutdownCall.hasCollected] at hw

theorem Shutdown.stops_nodup (hi : r.Shutdown) : r.stops.Nodup := by
  cases hi with
  | calm hp hc hs => simp [hs]
  | @pending k w hp hk ho hw =>
    cases w with
    | called | returned => exact hw.elim
    | won => simp [show r.stops = [] from hw]
    | stopping active rest => exact (hw.1 ▸ hw.2).of_append_left
    | finished => exact hw

theorem Shutdown.new : Shutdown ({} : Registry ι) := .calm rfl (by simp) rfl

variable [DecidableEq ι] {a : Action ι}

/-! ### What one step can do -/

inductive Step (r : Registry ι) : Action ι → Registry ι → Prop
  | construct {i : ι} (h : i ∉ r.constructed) :
      Step r (.construct i) { r with constructed := r.constructed ++ [i] }
  | register {i : ι} (ha : r.isAlive i = true) (hn : i ∉ r.results.map (·.1))
      (hp : r.shutdownPending = false) :
      Step r (.registerSession i)
        { r with sessions := r.sessions ++ [i], results := r.results ++ [(i, true)] }
  | refuse {i : ι} (ha : r.isAlive i = true) (hn : i ∉ r.results.map (·.1))
      (hp : r.shutdownPending = true) :
      Step r (.registerSession i) { r with results := r.results ++ [(i, false)] }
  | start {i : ι} (h : (i, true) ∈ r.results) (hn : i ∉ r.started) :
      Step r (.start i) { r with started := r.started ++ [i] }
  | destroy {i : ι} (ha : r.isAlive i = true) (hh : ∀ c ∈ r.calls, i ∉ c.held) :
      Step r (.destroy i) { r with destroyed := r.destroyed ++ [i] }
  | scheduleShutdown : Step r .scheduleShutdown { r with calls := r.calls ++ [.called] }
  | lose {k : Nat} (h : r.calls[k]? = some .called) (hp : r.shutdownPending = true) :
      Step r (.compareExchange k) { r with calls := r.calls.set k .returned }
  | win {k : Nat} (h : r.calls[k]? = some .called) (hp : r.shutdownPending = false) :
      Step r (.compareExchange k) { r with shutdownPending := true, calls := r.calls.set k .won }
  | collect {k : Nat} (h : r.calls[k]? = some .won) : Step r (.collect k) (r.collect k)
  | stopNext {k : Nat} {active rest : List ι} {i : ι}
      (h : r.calls[k]? = some (.stopping active (i :: rest))) :
      Step r (.stopNext k) { r with stops := r.stops ++ [i], calls := r.calls.set k (.stopping active rest) }
  | closeAcceptors {k : Nat} {active : List ι} (h : r.calls[k]? = some (.stopping active [])) :
      Step r (.closeAcceptors k) { r with acceptorsOpen := false, calls := r.calls.set k .finished }

theorem step_cases (h : step r a = some r') : Step r a r' := by
  cases a with
  | construct i =>
    obtain ⟨hh, rfl⟩ : _ ∧ _ = r' := by simpa [step] using h
    exact .construct hh
  | registerSession i =>
    obtain ⟨⟨ha, hn⟩, rfl⟩ : (_ ∧ _) ∧ _ = r' := by
      simpa only [step, Option.ite_none_right_eq_some, Option.some.injEq] using h
    cases hp : r.shutdownPending with
    | false => simpa [registerSession, hp] using Step.register ha hn hp
    | true => simpa [registerSession, hp] using Step.refuse ha hn hp
  | start i =>
    obtain ⟨⟨hh, hn⟩, rfl⟩ : (_ ∧ _) ∧ _ = r' := by
      simpa only [step, Option.ite_none_right_eq_some, Option.some.injEq] using h
    exact .start hh hn
  | destroy i =>
    obtain ⟨⟨ha, hh⟩, rfl⟩ : (_ ∧ _) ∧ _ = r' := by
      simpa only [step, Option.ite_none_right_eq_some, Option.some.injEq] using h
    exact .destroy ha hh
  | scheduleShutdown =>
    obtain rfl : _ = r' := by simpa [step] using h
    exact .scheduleShutdown
  | compareExchange k =>
    obtain ⟨hh, rfl⟩ : _ ∧ _ = r' := by simpa [step] using h
    cases hp : r.shutdownPending with
    | false => simpa [compareExchange, hp] using Step.win hh hp
    | true => simpa [compareExchange, hp] using Step.lose hh hp
  | collect k =>
    obtain ⟨hh, rfl⟩ : _ ∧ _ = r' := by simpa [step] using h
    exact .collect hh
  | stopNext k =>
    simp only [step] at h
    split at h
    · obtain rfl : _ = r' := by simpa using h
      exact .stopNext ‹_›
    · cases h
  | closeAcceptors k =>
    simp only [step] at h
    split at h
    · obtain rfl : _ = r' := by simpa using h
      exact .closeAcceptors ‹_›
    · cases h

/-! ### The list of sessions -/

theorem isAlive_iff {i : ι} : r.isAlive i = true ↔ i ∈ r.constructed ∧ i ∉ r.destroyed := by
  simp [isAlive]

theorem nodup_snoc {α : Type} {l : List α} {x : α} (h : l.Nodup) (hx : x ∉ l) : (l ++ [x]).Nodup := by
  simpa using List.Nodup.concat hx h

theorem Step.isAlive {i : ι} (h : Step r a r') (ha : a ≠ .destroy i) (hi : r.isAlive i = true) :
    r'.isAlive i = true := by
  obtain ⟨hc, hd⟩ := isAlive_iff.1 hi
  cases h with
  | construct => exact isAlive_iff.2 ⟨List.mem_append_left _ hc, hd⟩
  | @destroy j =>
    refine isAlive_iff.2 ⟨hc, fun hm => ?_⟩
    rcases List.mem_append.1 hm with hm | hm
    · exact hd hm
    · exact ha (by rw [List.mem_singleton.1 hm])
  | _ => exact hi

theorem Step.results {i : ι} {b : Bool} (h : Step r a r') (hi : (i, b) ∈ r.results) :
    (i, b) ∈ r'.results := by
  cases h with
  | register | refuse => exact List.mem_append_left _ hi
  | _ => exact hi

theorem Step.pending (h : Step r a r') (ha : ∀ k, a ≠ .compareExchange k) (hp : r'.shutdownPending = true) :
    r.shutdownPending = true := by
  cases h with
  | lose | win => exact absurd rfl (ha _)
  | _ => exact hp

theorem Step.stops (h : Step r a r') (ha : ∀ k, a ≠ .stopNext k) : r'.stops = r.stops := by
  cases h with
  | stopNext => exact absurd rfl (ha _)
  | _ => rfl

/-- The list holds every registered session that is alive, and only registered ones, once. -/
structure Listed (r : Registry ι) : Prop where
  nodup : r.sessions.Nodup
  registered : ∀ i ∈ r.sessions, (i, true) ∈ r.results
  listed : ∀ i, (i, true) ∈ r.results → r.isAlive i = true → i ∈ r.sessions
  constructed : ∀ p ∈ r.results, p.1 ∈ r.constructed
  destroyed : ∀ i ∈ r.destroyed, i ∈ r.constructed
  once : (r.results.map (·.1)).Nodup
  started : ∀ i ∈ r.started, (i, true) ∈ r.results

theorem Listed.new : Listed ({} : Registry ι) := by constructor <;> simp

theorem Listed.step (hi : r.Listed) (h : Step r a r') : r'.Listed := by
  obtain ⟨hn, hr, hl, hc, hd, ho, hs⟩ := hi
  cases h with
  | @construct i h =>
    refine ⟨hn, hr, fun j hj ha => hl j hj ?_, fun p hp => List.mem_append_left _ (hc p hp),
      fun j hj => List.mem_append_left _ (hd j hj), ho, hs⟩
    exact isAlive_iff.2 ⟨hc _ hj, (isAlive_iff.1 ha).2⟩
  | @register i ha hni hp =>
    have hni' : i ∉ r.sessions := fun hm => hni (List.mem_map.2 ⟨_, hr i hm, rfl⟩)
    refine ⟨nodup_snoc hn hni', fun j hj => ?_, fun j hj haj => ?_, fun p hp => ?_, hd, ?_,
      fun j hj => List.mem_append_left _ (hs j hj)⟩
    · rcases List.mem_append.1 hj with hj | hj
      · exact List.mem_append_left _ (hr j hj)
      · exact List.mem_append_right _ (by simpa using hj)
    · rcases List.mem_append.1 hj with hj | hj
      · exact List.mem_append_left _ (hl j hj haj)
      · exact List.mem_append_right _ (by simpa using hj)
    · rcases List.mem_append.1 hp with hp | hp
      · exact hc p hp
      · exact congrArg Prod.fst (List.mem_singleton.1 hp) ▸ (isAlive_iff.1 ha).1
    · rw [List.map_append]
      exact nodup_snoc ho hni
  | @refuse i ha hni hp =>
    refine ⟨hn, fun j hj => List.mem_append_left _ (hr j hj), fun j hj haj => hl j (by simpa using hj) haj,
      fun p hp => ?_, hd, ?_, fun j hj => List.mem_append_left _ (hs j hj)⟩
    · rcases List.mem_append.1 hp with hp | hp
      · exact hc p hp
      · exact congrArg Prod.fst (List.mem_singleton.1 hp) ▸ (isAlive_iff.1 ha).1
    · rw [List.map_append]
      exact nodup_snoc ho hni
  | start h hns =>
    refine ⟨hn, hr, hl, hc, hd, ho, fun j hj => ?_⟩
    rcases List.mem_append.1 hj with hj | hj
    · exact hs j hj
    · exact List.mem_singleton.1 hj ▸ h
  | destroy ha hh =>
    refine ⟨hn, hr, fun j hj haj => hl j hj ?_, hc, fun j hj => ?_, ho, hs⟩
    · obtain ⟨hcj, hdj⟩ := isAlive_iff.1 haj
      exact isAlive_iff.2 ⟨hcj, fun hm => hdj (List.mem_append_left _ hm)⟩
    · rcases List.mem_append.1 hj with hj | hj
      · exact hd j hj
      · exact List.mem_singleton.1 hj ▸ (isAlive_iff.1 ha).1
  | scheduleShutdown | lose | win | stopNext | closeAcceptors => exact ⟨hn, hr, hl, hc, hd, ho, hs⟩
  | collect h =>
    refine ⟨hn.filter _, fun j hj => hr j (List.mem_of_mem_filter hj), fun j hj haj => ?_, hc, hd, ho, hs⟩
    exact List.mem_filter.2 ⟨hl j hj haj, haj⟩

/-! ### The run of a shutdown -/

theorem Shutdown.step (hi : r.Shutdown) (hl : r.Listed) (h : Step r a r') : r'.Shutdown := by
  cases h with
  | construct | register | refuse | start | destroy =>
    cases hi with
    | calm hp hc hs => exact .calm hp hc hs
    | pending hp hk ho hw => exact .pending hp hk ho hw
  | scheduleShutdown =>
    cases hi with
    | calm hp hc hs =>
      refine .calm hp (fun c hc' => ?_) hs
      rcases List.mem_append.1 hc' with hc' | hc'
      · exact hc c hc'
      · exact List.mem_singleton.1 hc'
    | @pending k w hp hk ho hw =>
      refine .pending hp (getElem?_snoc hk) (fun j c hj hjc => ?_) hw
      rcases of_getElem?_snoc hjc with hjc | rfl
      · exact ho j c hj hjc
      · exact .inl rfl
  | @lose k h hp =>
    cases hi with
    | calm hp' => simp [hp] at hp'
    | @pending k' w hp hk ho hw =>
      -- the winner is another call
      have hkk : k' ≠ k := fun he => hw.not_passive (.inl (by simpa [he, h] using hk.symm))
      refine .pending hp (by rwa [List.getElem?_set_ne hkk.symm]) (fun j c hj hjc => ?_) hw
      rcases of_getElem?_set hjc with hjc | rfl
      · exact ho j c hj hjc
      · exact .inr rfl
  | @win k h hp =>
    cases hi with
    | calm hp' hc hs =>
      have hlt : k < r.calls.length := (List.getElem?_eq_some_iff.1 h).1
      refine .pending rfl (List.getElem?_set_self hlt) (fun j c hj hjc => ?_) hs
      rw [List.getElem?_set_ne (Ne.symm hj)] at hjc
      exact .inl (hc c (List.mem_of_getElem? hjc))
    | pending hp' => simp [hp] at hp'
  | collect h =>
    refine hi.advance h (by simp [ShutdownCall.IsPassive]) rfl rfl fun hs => ⟨?_, hl.nodup.filter _⟩
    simp [show r.stops = [] from hs, Registry.collect]
  | stopNext h =>
    exact hi.advance h (by simp [ShutdownCall.IsPassive]) rfl rfl fun ⟨hs, hn⟩ => ⟨by simp [hs], hn⟩
  | closeAcceptors h =>
    refine hi.advance h (by simp [ShutdownCall.IsPassive]) rfl rfl fun ⟨hs, hn⟩ => ?_
    rw [hs, List.append_nil] at hn
    exact hn

/-- The session has been stopped or is still to be stopped by the loop that has collected it. -/
def IsDue (r : Registry ι) (i : ι) : Prop :=
  i ∈ r.stops ∨ ∃ (k : Nat) (active rest : List ι), r.calls[k]? = some (.stopping active rest) ∧ i ∈ rest

theorem IsDue.step {i : ι} (hi : r.IsDue i) (h : Step r a r') : r'.IsDue i := by
  rcases hi with hm | ⟨k, active, rest, hk, hm⟩
  · cases h with
    | stopNext h => exact .inl (List.mem_append_left _ hm)
    | _ => exact .inl hm
  · -- a call that is not at its loop is another call
    have hother : ∀ {j : Nat} {w w' : ShutdownCall ι}, r.calls[j]? = some w →
        (∀ active rest, w ≠ .stopping active rest) →
        (r.calls.set j w')[k]? = some (.stopping active rest) := by
      intro j w w' hj hw
      have hjk : j ≠ k := fun he => hw active rest (by simpa [he, hk] using hj.symm)
      rwa [List.getElem?_set_ne hjk]
    cases h with
    | construct | register | refuse | start | destroy => exact .inr ⟨k, active, rest, hk, hm⟩
    | scheduleShutdown => exact .inr ⟨k, active, rest, getElem?_snoc hk, hm⟩
    | lose h | win h | collect h => exact .inr ⟨k, active, rest, hother h (by simp), hm⟩
    | @stopNext j active' rest' i' h =>
      by_cases hj : j = k
      · subst hj
        obtain ⟨rfl, rfl⟩ : active' = active ∧ i' :: rest' = rest := by simpa [h] using hk
        rcases List.mem_cons.1 hm with rfl | hm
        · exact .inl (by simp)
        · have hlt := (List.getElem?_eq_some_iff.1 h).1
          exact .inr ⟨j, active', rest', List.getElem?_set_self hlt, hm⟩
      · exact .inr ⟨k, active, rest, by rwa [List.getElem?_set_ne hj], hm⟩
    | @closeAcceptors j active' h =>
      by_cases hj : j = k
      · subst hj
        obtain ⟨-, rfl⟩ : active' = active ∧ [] = rest := by simpa [h] using hk
        simp at hm
      · exact .inr ⟨k, active, rest, by rwa [List.getElem?_set_ne hj], hm⟩

/-- When the winning call has finished, nothing is left to be stopped. -/
theorem IsDue.stopped {i : ι} {j : Nat} (hi : r.IsDue i) (hs : r.Shutdown)
    (hj : r.calls[j]? = some .finished) : r.stops.count i = 1 := by
  rcases hi with hm | ⟨k, active, rest, hk, -⟩
  · exact List.count_eq_one_of_mem hs.stops_nodup hm
  · have hkj : k ≠ j := fun he => by simp [he, hj] at hk
    have := (hs.winner hj (by simp [ShutdownCall.IsPassive])).2.2 k _ hkj hk
    simp [ShutdownCall.IsPassive] at this

/-- What holds from the collection in the state `s` on: the flag is set, the sessions that `s` has registered
and that were alive are due, and no session is registered any more. -/
structure Collected (s r : Registry ι) : Prop where
  pending : r.shutdownPending = true
  due : ∀ i, (i, true) ∈ s.results → s.isAlive i = true → r.IsDue i
  refused : ∀ i b, (i, b) ∈ r.results → (i, b) ∉ s.results → b = false

theorem Collected.collect {k : Nat} (hl : r.Listed) (hs : r.Shutdown) (h : r.calls[k]? = some .won) :
    Collected r (r.collect k) where
  pending := (hs.winner h (by simp [ShutdownCall.IsPassive])).1
  due i hi ha := by
    have hlt := (List.getElem?_eq_some_iff.1 h).1
    exact .inr ⟨k, _, _, List.getElem?_set_self hlt, List.mem_filter.2 ⟨hl.listed i hi ha, ha⟩⟩
  refused i b hb hnb := absurd hb hnb

theorem Collected.step {s : Registry ι} (hi : Collected s r) (h : Step r a r') : Collected s r' := by
  refine ⟨?_, fun i hm ha => (hi.due i hm ha).step h, ?_⟩
  · cases h with
    | win => rfl
    | _ => exact hi.pending
  · cases h with
    | register ha hn hp => simp [hi.pending] at hp
    | refuse =>
      intro i b hb hnb
      rcases List.mem_append.1 hb with hb | hb
      · exact hi.refused i b hb hnb
      · exact (Prod.mk.inj (List.mem_singleton.1 hb)).2
    | _ => exact hi.refused

/-- A step of another kind than the collection makes no session due. -/
theorem IsDue.of_step {i : ι} (hi : r'.IsDue i) (h : Step r a r') (ha : ∀ k, a ≠ .collect k) : r.IsDue i := by
  have hset : ∀ {j : Nat} {w' : ShutdownCall ι}, (∀ active rest, w' ≠ .stopping active rest) →
      Registry.IsDue { r with calls := r.calls.set j w' } i → r.IsDue i := by
    rintro j w' hw (hm | ⟨k, active, rest, hk, hm⟩)
    · exact .inl hm
    · rcases of_getElem?_set hk with hk | he
      · exact .inr ⟨k, active, rest, hk, hm⟩
      · exact absurd he.symm (hw active rest)
  cases h with
  | construct | register | refuse | start | destroy => exact hi
  | scheduleShutdown =>
    rcases hi with hm | ⟨k, active, rest, hk, hm⟩
    · exact .inl hm
    · rcases of_getElem?_snoc hk with hk | he
      · exact .inr ⟨k, active, rest, hk, hm⟩
      · simp at he
  | lose | win | closeAcceptors => exact hset (by simp) hi
  | collect => exact absurd rfl (ha _)
  | stopNext h =>
    rcases hi with hm | ⟨k, active, rest, hk, hm⟩
    · rcases List.mem_append.1 hm with hm | hm
      · exact .inl hm
      · exact .inr ⟨_, _, _, h, by simp [List.mem_singleton.1 hm]⟩
    · rcases of_getElem?_set hk with hk | he
      · exact .inr ⟨k, active, rest, hk, hm⟩
      · obtain ⟨rfl, rfl⟩ := ShutdownCall.stopping.inj he
        exact .inr ⟨_, _, _, h, List.mem_cons_of_mem _ hm⟩

/-- Once a call has collected the sessions, every registered session that is alive is due; what is due has
been constructed. -/
structure Drained (r : Registry ι) : Prop where
  due : (∃ (k : Nat) (w : ShutdownCall ι), r.calls[k]? = some w ∧ w.hasCollected = true) →
    ∀ i, (i, true) ∈ r.results → r.isAlive i = true → r.IsDue i
  constructed : ∀ i, r.IsDue i → i ∈ r.constructed

theorem Drained.new : Drained ({} : Registry ι) := by constructor <;> simp [IsDue]

/-- The collecting step apart, a call has collected only what it had collected before. -/
theorem Step.hasCollected (h : Step r a r') (ha : ∀ k, a ≠ .collect k)
    (hc : ∃ (k : Nat) (w : ShutdownCall ι), r'.calls[k]? = some w ∧ w.hasCollected = true) :
    ∃ (k : Nat) (w : ShutdownCall ι), r.calls[k]? = some w ∧ w.hasCollected = true := by
  obtain ⟨k, w, hk, hw⟩ := hc
  cases h with
  | construct | register | refuse | start | destroy => exact ⟨k, w, hk, hw⟩
  | scheduleShutdown =>
    rcases of_getElem?_snoc hk with hk | rfl
    · exact ⟨k, w, hk, hw⟩
    · simp [ShutdownCall.hasCollected] at hw
  | lose | win =>
    rcases of_getElem?_set hk with hk | rfl
    · exact ⟨k, w, hk, hw⟩
    · simp [ShutdownCall.hasCollected] at hw
  | collect => exact absurd rfl (ha _)
  | stopNext h | closeAcceptors h => exact ⟨_, _, h, rfl⟩

/-- During a shutdown no session is registered, and none comes back to life. -/
theorem Step.registered_alive {i : ι} (h : Step r a r') (hl : r.Listed) (hp : r.shutdownPending = true)
    (hm : (i, true) ∈ r'.results) (hal : r'.isAlive i = true) :
    (i, true) ∈ r.results ∧ r.isAlive i = true := by
  cases h with
  | register ha hn hp' => simp [hp] at hp'
  | refuse => exact ⟨by simpa using hm, hal⟩
  | construct => exact ⟨hm, isAlive_iff.2 ⟨hl.constructed _ hm, (isAlive_iff.1 hal).2⟩⟩
  | destroy =>
    obtain ⟨hc, hd⟩ := isAlive_iff.1 hal
    exact ⟨hm, isAlive_iff.2 ⟨hc, fun h => hd (List.mem_append_left _ h)⟩⟩
  | _ => exact ⟨hm, hal⟩

theorem Drained.step (hi : r.Drained) (hl : r.Listed) (hs : r.Shutdown) (h : Step r a r') : r'.Drained := by
  by_cases ha : ∃ k, a = .collect k
  · obtain ⟨k, rfl⟩ := ha
    cases h with
    | collect h =>
      refine ⟨fun _ => (Collected.collect hl hs h).due, ?_⟩
      rintro i (hm | ⟨j, active, rest, hj, hm⟩)
      · exact hi.constructed i (.inl hm)
      · rcases of_getElem?_set hj with hj | he
        · exact hi.constructed i (.inr ⟨j, active, rest, hj, hm⟩)
        · obtain ⟨-, rfl⟩ := ShutdownCall.stopping.inj he
          exact hl.constructed _ (hl.registered i (List.mem_of_mem_filter hm))
  · have ha : ∀ k, a ≠ .collect k := fun k he => ha ⟨k, he⟩
    refine ⟨fun hc i hm hal => ?_, fun i hd => ?_⟩
    · have hc := h.hasCollected ha hc
      obtain ⟨k, w, hk, hw⟩ := hc
      obtain ⟨hm', hal'⟩ := h.registered_alive hl (hs.pending_of_hasCollected hk hw) hm hal
      exact (hi.due ⟨k, w, hk, hw⟩ i hm' hal').step h
    · have := hi.constructed i (hd.of_step h ha)
      cases h <;> first | exact this | exact List.mem_append_left _ this

/-- The invariants of a registry. -/
structure Inv (r : Registry ι) : Prop where
  listed : r.Listed
  shutdown : r.Shutdown
  drained : r.Drained

theorem Inv.new : Inv ({} : Registry ι) := ⟨.new, .new, .new⟩

theorem Inv.step (hi : r.Inv) (h : Step r a r') : r'.Inv :=
  ⟨hi.listed.step h, hi.shutdown.step hi.listed h, hi.drained.step hi.listed hi.shutdown h⟩

theorem inv_of_run {as : List (Action ι)} (h : Run (Det step) ({} : Registry ι) as r) : r.Inv :=
  h.invariant (fun _ _ _ hi h => hi.step (step_cases h)) .new

/-- No session is stopped twice. Once `stop_sessions` has collected its list in a state `s`, every session
that is registered and alive in `s` has been stopped or is due, and has been stopped exactly once when the
call has finished; every later `register_session` answers false, and its session is not started. -/
theorem no_session_slips {as : List (Action ι)} (h : Run (Det step) ({} : Registry ι) as r) :
    (∀ i, r.stops.count i ≤ 1) ∧
    ∀ (pre post : List (Action ι)) (k : Nat) (s : Registry ι), as = pre ++ .collect k :: post →
      Run (Det step) {} pre s →
      (∀ i, (i, true) ∈ s.results → s.isAlive i = true →
        r.IsDue i ∧ ((∃ j : Nat, r.calls[j]? = some .finished) → r.stops.count i = 1)) ∧
      (∀ i b, (i, b) ∈ r.results → (i, b) ∉ s.results → b = false ∧ i ∉ r.started) := by
  obtain ⟨hl, hs, -⟩ := inv_of_run h
  refine ⟨List.nodup_iff_count_le_one.1 hs.stops_nodup, ?_⟩
  rintro pre post k s rfl hpre
  have hc : Collected s r := by
    obtain ⟨s', hs', hpost⟩ := h.append_inv
    obtain rfl : s' = s := run_det_unique hs' hpre
    obtain ⟨hl', hs', -⟩ := inv_of_run hpre
    cases hpost with
    | cons hst hr =>
      have hst := step_cases hst
      cases hst with
      | collect hk => exact hr.invariant (fun _ _ _ hi h => hi.step (step_cases h)) (.collect hl' hs' hk)
  refine ⟨fun i hm ha => ?_, fun i b hb hnb => ?_⟩
  · have hdue := hc.due i hm ha
    exact ⟨hdue, fun ⟨j, hj⟩ => hdue.stopped hs hj⟩
  · obtain rfl := hc.refused i b hb hnb
    refine ⟨rfl, fun hst => ?_⟩
    -- one session has one answer
    have := List.inj_on_of_nodup_map hl.once hb (hl.started i hst) rfl
    simp at this

/-- A session is registered and started, then two calls of `schedule_shutdown` are made and one wins. -/
def beforeCollect : List (Action Nat) :=
  [.construct 0, .registerSession 0, .start 0, .scheduleShutdown, .scheduleShutdown, .compareExchange 1]

/-- Another session is made after the collection; the other call loses. -/
def afterCollect : List (Action Nat) :=
  [.construct 1, .compareExchange 0, .registerSession 1, .stopNext 1, .closeAcceptors 1]

theorem no_session_slips_late : ∃ r,
    Run (Det step) ({} : Registry Nat) (beforeCollect ++ Action.collect 1 :: afterCollect) r ∧
    r.stops.count 0 = 1 ∧ (1, false) ∈ r.results ∧ 1 ∉ r.started := by
  obtain ⟨s, hs⟩ := Option.isSome_iff_exists.1
    (by decide : (beforeCollect.foldlM step ({} : Registry Nat)).isSome)
  obtain ⟨r, hr⟩ := Option.isSome_iff_exists.1
    (by decide : ((beforeCollect ++ Action.collect 1 :: afterCollect).foldlM step ({} : Registry Nat)).isSome)
  have hrun := Lts.run_det_iff.2 hr
  obtain ⟨hdue, href⟩ := (no_session_slips hrun).2 _ _ _ s rfl (Lts.run_det_iff.2 hs)
  cases hs
  cases hr
  exact ⟨_, hrun, (hdue 0 (by decide) (by decide)).2 ⟨1, by decide⟩, by decide,
    (href 1 false (by decide) (by decide)).2⟩

end Registry

end MarketBridge
