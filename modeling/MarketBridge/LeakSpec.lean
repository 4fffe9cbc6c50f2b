import MarketBridge.RegistrySpec
import Mathlib.Data.List.Perm.Subperm

/-!
# The list of sessions before a shutdown

`register_session` appends and only `stop_sessions` erases, so until a shutdown the list keeps an entry for
every session that was ever registered. It is exact after a registration iff none of them has been destroyed.
-/

namespace MarketBridge.Registry

open Lts (Run Det run_det_iff)

variable {ι : Type} {r r' : Registry ι} {a : Action ι} {as : List (Action ι)}

/-- One entry for each registered session that is alive, and none for a destroyed one. -/
structure Exact [DecidableEq ι] (r : Registry ι) : Prop where
  nodup : r.sessions.Nodup
  mem_iff : ∀ i, i ∈ r.sessions ↔ (i, true) ∈ r.results ∧ r.isAlive i = true
  length_le : r.sessions.length ≤ (r.constructed.filter r.isAlive).length

theorem Exact.of_mem_iff [DecidableEq ι] (hn : r.sessions.Nodup)
    (h : ∀ i, i ∈ r.sessions ↔ (i, true) ∈ r.results ∧ r.isAlive i = true) : r.Exact where
  nodup := hn
  mem_iff := h
  length_le := by
    refine (List.subperm_of_subset hn fun i hi => ?_).length_le
    have ha := ((h i).1 hi).2
    exact List.mem_filter.2 ⟨(isAlive_iff.1 ha).1, ha⟩

/-! ### What a registry remembers of its run -/

structure Journal (as : List (Action ι)) (r : Registry ι) : Prop where
  registered : ∀ i, (∃ b, (i, b) ∈ r.results) ↔ .registerSession i ∈ as
  destroyed : ∀ i, i ∈ r.destroyed ↔ .destroy i ∈ as

theorem Journal.new : Journal [] ({} : Registry ι) where
  registered := fun _ => ⟨fun ⟨_, h⟩ => absurd h List.not_mem_nil, fun h => absurd h List.not_mem_nil⟩
  destroyed := fun _ => ⟨fun h => absurd h List.not_mem_nil, fun h => absurd h List.not_mem_nil⟩

/-- A step that registers and destroys nothing. -/
theorem Journal.silent (hi : Journal as r) (hr : r'.results = r.results) (hd : r'.destroyed = r.destroyed)
    (ha : ∀ i, a ≠ .registerSession i ∧ a ≠ .destroy i) : Journal (as ++ [a]) r' where
  registered := by
    intro i
    rw [hr, hi.registered i, List.mem_append, List.mem_singleton]
    exact ⟨.inl, fun h => h.resolve_right (ha i).1.symm⟩
  destroyed := by
    intro i
    rw [hd, hi.destroyed i, List.mem_append, List.mem_singleton]
    exact ⟨.inl, fun h => h.resolve_right (ha i).2.symm⟩

theorem Journal.register {i : ι} {b : Bool} (hi : Journal as r) (hr : r'.results = r.results ++ [(i, b)])
    (hd : r'.destroyed = r.destroyed) : Journal (as ++ [.registerSession i]) r' where
  registered := by
    intro j
    rw [hr, List.mem_append, List.mem_singleton, ← hi.registered j]
    constructor
    · rintro ⟨b', hb⟩
      rcases List.mem_append.1 hb with hb | hb
      · exact .inl ⟨b', hb⟩
      · cases List.mem_singleton.1 hb
        exact .inr rfl
    · rintro (⟨b', hb⟩ | hj)
      · exact ⟨b', List.mem_append_left _ hb⟩
      · cases hj
        exact ⟨b, List.mem_append_right _ List.mem_cons_self⟩
  destroyed := by
    intro j
    rw [hd, hi.destroyed j, List.mem_append, List.mem_singleton]
    exact ⟨.inl, fun h => h.resolve_right nofun⟩

variable [DecidableEq ι]

theorem Journal.step (hi : Journal as r) (h : Step r a r') : Journal (as ++ [a]) r' := by
  cases h with
  | register | refuse => exact hi.register rfl rfl
  | @destroy i =>
    refine ⟨fun j => ?_, fun j => ?_⟩
    · show (∃ b, (j, b) ∈ r.results) ↔ _
      rw [hi.registered j, List.mem_append, List.mem_singleton]
      exact ⟨.inl, fun h => h.resolve_right nofun⟩
    · show j ∈ r.destroyed ++ [i] ↔ _
      rw [List.mem_append, hi.destroyed j, List.mem_append, List.mem_singleton, List.mem_singleton]
      exact or_congr_right ⟨fun h => by rw [h], fun h => by cases h; rfl⟩
  | _ => exact hi.silent rfl rfl fun _ => ⟨nofun, nofun⟩

theorem journal_of_run (h : Run (Det step) ({} : Registry ι) as r) : Journal as r :=
  h.trace_invariant (I := Journal) .new fun _ _ _ _ hi hst => hi.step (step_cases hst)

/-! ### The list keeps what was registered -/

/-- Before a shutdown every registration has succeeded and is still in the list. -/
def Kept (r : Registry ι) : Prop :=
  r.shutdownPending = false → ∀ i b, (i, b) ∈ r.results → b = true ∧ i ∈ r.sessions

theorem Kept.step (hi : r.Kept) (hs : r.Shutdown) (h : Step r a r') : r'.Kept := by
  intro hp i b hb
  cases h with
  | register =>
    rcases List.mem_append.1 hb with hb | hb
    · obtain ⟨hb, hm⟩ := hi hp i b hb
      exact ⟨hb, List.mem_append_left _ hm⟩
    · cases List.mem_singleton.1 hb
      exact ⟨rfl, List.mem_append_right _ List.mem_cons_self⟩
  | refuse _ _ hp' =>
    rw [show r.shutdownPending = false from hp] at hp'
    cases hp'
  | win => cases hp
  | collect h =>
    -- only the call that has won collects
    have hp' := (hs.winner h fun hw => by rcases hw with hw | hw <;> cases hw).1
    rw [show r.shutdownPending = false from hp] at hp'
    cases hp'
  | _ => exact hi hp i b hb

theorem kept_of_run (h : Run (Det step) ({} : Registry ι) as r) : r.Kept :=
  (h.invariant (I := fun r => r.Inv ∧ r.Kept)
    (fun _ _ _ hi hst => ⟨hi.1.step (step_cases hst), hi.2.step hi.1.shutdown (step_cases hst)⟩)
    ⟨.new, fun _ _ _ hb => absurd hb List.not_mem_nil⟩).2

theorem alive_of_registered {i : ι} (h : Run (Det step) ({} : Registry ι) (as ++ [.registerSession i]) r) :
    i ∉ r.destroyed := by
  obtain ⟨r₀, -, hr⟩ := h.append_inv
  cases hr with
  | cons hst hr =>
    cases hr with
    | nil =>
      cases step_cases hst with
      | register ha => exact (isAlive_iff.1 ha).2
      | refuse ha => exact (isAlive_iff.1 ha).2

/-- Right after a registration, in a run without a shutdown, the list is exact iff no session that was
registered earlier has been destroyed. -/
theorem exact_iff {i : ι} (h : Run (Det step) ({} : Registry ι) (as ++ [.registerSession i]) r)
    (hp : r.shutdownPending = false) :
    r.Exact ↔ ∀ j, .registerSession j ∈ as → .destroy j ∉ as := by
  have hj := journal_of_run h
  have hl := (inv_of_run h).listed
  have hk := kept_of_run h hp
  constructor
  · intro he j hr hd
    obtain ⟨b, hb⟩ := (hj.registered j).2 (List.mem_append_left _ hr)
    have halive := ((he.mem_iff j).1 (hk j b hb).2).2
    exact (isAlive_iff.1 halive).2 ((hj.destroyed j).2 (List.mem_append_left _ hd))
  · intro hd
    have halive : ∀ j, (j, true) ∈ r.results → r.isAlive j = true := by
      intro j hm
      refine isAlive_iff.2 ⟨hl.constructed _ hm, fun hdj => ?_⟩
      rcases List.mem_append.1 ((hj.registered j).1 ⟨true, hm⟩) with hr | hr
      · rcases List.mem_append.1 ((hj.destroyed j).1 hdj) with hdj | hdj
        · exact hd j hr hdj
        · cases List.mem_singleton.1 hdj
      · cases List.mem_singleton.1 hr
        exact alive_of_registered h hdj
    exact .of_mem_iff hl.nodup fun j =>
      ⟨fun hm => ⟨hl.registered j hm, halive j (hl.registered j hm)⟩, fun hm => (hk j true hm.1).2⟩

def bothAlive : List (Action Nat) := [.construct 0, .registerSession 0, .construct 1]

theorem exact_iff_both : ∃ r : Registry Nat, Run (Det step) {} (bothAlive ++ [.registerSession 1]) r ∧
    r.Exact := by
  obtain ⟨r, hr⟩ := Option.isSome_iff_exists.1
    (by decide : ((bothAlive ++ [Action.registerSession 1]).foldlM step ({} : Registry Nat)).isSome)
  have hrun := run_det_iff.2 hr
  have hp : r.shutdownPending = false := by cases hr; rfl
  have hd : ∀ j, .destroy j ∉ bothAlive := by simp [bothAlive]
  exact ⟨r, hrun, (exact_iff hrun hp).2 fun j _ => hd j⟩

/-- The first session is gone when the second is registered. -/
def firstDead : List (Action Nat) := [.construct 0, .registerSession 0, .destroy 0, .construct 1]

theorem firstDead_not_exact : ¬ ∀ (as : List (Action Nat)) (i : Nat) (r : Registry Nat),
    Run (Det step) {} (as ++ [.registerSession i]) r → r.shutdownPending = false → r.Exact := by
  intro h
  obtain ⟨r, hr⟩ := Option.isSome_iff_exists.1
    (by decide : ((firstDead ++ [Action.registerSession 1]).foldlM step ({} : Registry Nat)).isSome)
  have hp : r.shutdownPending = false := by cases hr; rfl
  have hm : 0 ∈ r.sessions ∧ r.isAlive 0 = false := by cases hr; decide
  have he := h _ _ r (run_det_iff.2 hr) hp
  have := ((he.mem_iff 0).1 hm.1).2
  rw [hm.2] at this
  cases this

end MarketBridge.Registry
