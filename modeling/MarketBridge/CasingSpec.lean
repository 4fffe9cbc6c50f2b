import MarketBridge.BlockSpec
import Mathlib.Data.List.Forall2

/-!
# The spelling of header names

Header names are compared byte by byte, so a block and a recased one ask the upstream for the same thing
only where the case of `User-Agent` does not matter.
-/

namespace MarketBridge

def lower (b : UInt8) : UInt8 := if 65 ≤ b && b ≤ 90 then b + 32 else b

/-- The name up to the case of its ASCII letters. -/
def HeaderField.folded (f : HeaderField) : Bytes := f.name.map lower

def userAgentName : Bytes := lit "User-Agent"

def HeaderField.IsAgent (f : HeaderField) : Prop := f.folded = userAgentName.map lower

inductive HeaderLine.Recased : HeaderLine → HeaderLine → Prop
  | field {f f' : HeaderField} (hn : f.folded = f'.folded) (hb : f.blanks = f'.blanks)
      (hv : f.value = f'.value) : Recased (.field f) (.field f')
  | plain (p : PlainText) : Recased (.plain p) (.plain p)

/-- The blocks differ in the case of header names only. -/
structure HeaderBlock.Recased (b b' : HeaderBlock) : Prop where
  requestLine : b.requestLine = b'.requestLine
  requestEnd : b.requestEnd = b'.requestEnd
  lines : List.Forall₂ (fun l l' => l.line.Recased l'.line ∧ l.lineEnd = l'.lineEnd) b.lines b'.lines
  blankEnd : b.blankEnd = b'.blankEnd

/-- No two names coincide ignoring case. -/
def HeaderBlock.DistinctNames (b : HeaderBlock) : Prop := (b.fields.map HeaderField.folded).Nodup

/-! ### The fields of recased blocks -/

section

variable {b b' : HeaderBlock} {fs : List HeaderField} {f g : HeaderField}

theorem fields_recased {ls ls' : List BlockLine}
    (h : List.Forall₂ (fun l l' => l.line.Recased l'.line ∧ l.lineEnd = l'.lineEnd) ls ls') :
    List.Forall₂ (fun f f' => f.folded = f'.folded ∧ f.value = f'.value) (fields ls) (fields ls') := by
  induction h with
  | nil => exact .nil
  | @cons l l' ls ls' hl _ ih =>
    obtain ⟨line, _, _⟩ := l
    obtain ⟨line', _, _⟩ := l'
    obtain ⟨hl, -⟩ := hl
    cases hl with
    | field hn hb hv => exact .cons ⟨hn, hv⟩ ih
    | plain p => exact ih

theorem HeaderBlock.Recased.folded (h : b.Recased b') :
    b.fields.map HeaderField.folded = b'.fields.map HeaderField.folded := by
  have hf := fields_recased h.lines
  rw [← List.forall₂_eq_eq_eq, List.forall₂_map_left_iff, List.forall₂_map_right_iff]
  exact hf.imp fun _ _ hr => hr.1

theorem HeaderBlock.Recased.distinctNames (h : b.Recased b') (hd : b.DistinctNames) : b'.DistinctNames := by
  unfold DistinctNames
  rw [← h.folded]
  exact hd

/-- Every field has its counterpart in the other block. -/
theorem HeaderBlock.Recased.exists_field (h : b.Recased b') (hf : f ∈ b.fields) :
    ∃ f' ∈ b'.fields, f.folded = f'.folded ∧ f.value = f'.value := by
  have hr := fields_recased h.lines
  obtain ⟨i, hi, rfl⟩ := List.mem_iff_getElem.1 hf
  have hi' : i < b'.fields.length := hr.length_eq ▸ hi
  exact ⟨b'.fields[i], List.getElem_mem hi', (List.forall₂_iff_get.1 hr).2 i hi hi'⟩

theorem eq_of_folded (hd : (fs.map HeaderField.folded).Nodup) (hf : f ∈ fs) (hg : g ∈ fs)
    (h : f.folded = g.folded) : f = g := List.inj_on_of_nodup_map hd hf hg h

theorem lastValue_iff_mem (hd : (fs.map HeaderField.folded).Nodup) {name value : Bytes} :
    LastValue fs name value ↔ ∃ f ∈ fs, f.name = name ∧ f.value = value := by
  constructor
  · rintro ⟨before, f, after, rfl, hn, hv, -⟩
    exact ⟨f, by simp, hn, hv⟩
  · rintro ⟨f, hf, rfl, hv⟩
    obtain ⟨before, after, rfl⟩ := List.append_of_mem hf
    refine ⟨before, f, after, rfl, rfl, hv, fun g hg hn => ?_⟩
    -- `g` would be a second field of this name
    rw [List.map_append, List.map_cons, List.nodup_append] at hd
    refine (List.nodup_cons.1 hd.2.1).1 (List.mem_map.2 ⟨g, hg, ?_⟩)
    rw [HeaderField.folded, hn, HeaderField.folded]

/-! ### The agent -/

theorem isAgent_of_name (h : f.name = userAgentName) : f.IsAgent := by
  rw [HeaderField.IsAgent, HeaderField.folded, h]

theorem userAgent_eq (r : HttpRequest) :
    userAgent r = (r.headers[userAgentName]?).getD defaultUserAgent := by
  unfold userAgent userAgentName
  cases r.headers[lit "User-Agent"]? <;> rfl

theorem userAgent_block (b : HeaderBlock) (rest : Bytes) :
    userAgent (parseRequest (b.text ++ rest)) =
      ((storeAll b.fields ∅)[userAgentName]?).getD defaultUserAgent := by
  rw [userAgent_eq, parseRequest_block]

theorem userAgent_of_isAgent (hd : b.DistinctNames) (hf : f ∈ b.fields) (ha : f.IsAgent) (rest : Bytes) :
    userAgent (parseRequest (b.text ++ rest)) =
      if f.name = userAgentName then f.value else defaultUserAgent := by
  rw [userAgent_block]
  split
  · rename_i hn
    rw [storeAll_empty_eq_some.2 ((lastValue_iff_mem hd).2 ⟨f, hf, hn, rfl⟩), Option.getD_some]
  · rename_i hn
    cases hs : (storeAll b.fields ∅)[userAgentName]? with
    | none => rfl
    | some v =>
      obtain ⟨g, hg, hgn, -⟩ := (lastValue_iff_mem hd).1 (storeAll_empty_eq_some.1 hs)
      obtain rfl : f = g := eq_of_folded hd hf hg (ha.trans (isAgent_of_name hgn).symm)
      exact absurd hgn hn

theorem userAgent_of_no_agent (h : ∀ f ∈ b.fields, ¬ f.IsAgent) (rest : Bytes) :
    userAgent (parseRequest (b.text ++ rest)) = defaultUserAgent := by
  rw [userAgent_block]
  cases hs : (storeAll b.fields ∅)[userAgentName]? with
  | none => rfl
  | some v =>
    obtain ⟨before, g, after, he, hn, -⟩ := storeAll_empty_eq_some.1 hs
    exact absurd (isAgent_of_name hn) (h g (by rw [he]; simp))

theorem generateRequest_eq_iff {r r' : HttpRequest} (ht : r.target = r'.target) (host : Bytes) :
    generateRequest r host = generateRequest r' host ↔ userAgent r = userAgent r' := by
  simp [generateRequest, requestPieces, ht]

theorem HeaderBlock.Recased.generateRequest_iff (h : b.Recased b') (rest rest' host : Bytes) :
    generateRequest (parseRequest (b.text ++ rest)) host =
        generateRequest (parseRequest (b'.text ++ rest')) host ↔
      userAgent (parseRequest (b.text ++ rest)) = userAgent (parseRequest (b'.text ++ rest')) := by
  refine generateRequest_eq_iff ?_ host
  rw [parseRequest_block, parseRequest_block, h.requestLine]

end

/-- Recased blocks ask for the same thing exactly when both or neither spell the agent's name as
`generate_request` does, or the value is the default one. -/
theorem generateRequest_recased :
    (∀ raw, IsHeaderBlock raw → ∃ (b : HeaderBlock) (rest : Bytes), raw = b.text ++ rest) ∧
    (∀ (b b' : HeaderBlock) (rest rest' host : Bytes), b.Recased b' → b.DistinctNames →
      (generateRequest (parseRequest (b.text ++ rest)) host =
          generateRequest (parseRequest (b'.text ++ rest')) host ↔
        ∀ f ∈ b.fields, ∀ f' ∈ b'.fields, f.IsAgent → f'.IsAgent →
          (f.name = userAgentName ↔ f'.name = userAgentName) ∨ f.value = defaultUserAgent)) ∧
    ∀ (b : HeaderBlock) (rest : Bytes) (f : HeaderField), b.DistinctNames → f ∈ b.fields → f.IsAgent →
      userAgent (parseRequest (b.text ++ rest)) =
        if f.name = userAgentName then f.value else defaultUserAgent := by
  refine ⟨fun raw h => h.exists_block, fun b b' rest rest' host h hd => ?_,
    fun b rest f hd hf ha => userAgent_of_isAgent hd hf ha rest⟩
  have hd' := h.distinctNames hd
  rw [h.generateRequest_iff]
  by_cases hex : ∃ f ∈ b.fields, f.IsAgent
  · obtain ⟨f, hf, ha⟩ := hex
    obtain ⟨f', hf', hn, hv⟩ := h.exists_field hf
    have ha' : f'.IsAgent := hn.symm.trans ha
    rw [userAgent_of_isAgent hd hf ha, userAgent_of_isAgent hd' hf' ha', ← hv]
    have hcond : (∀ g ∈ b.fields, ∀ g' ∈ b'.fields, g.IsAgent → g'.IsAgent →
        (g.name = userAgentName ↔ g'.name = userAgentName) ∨ g.value = defaultUserAgent) ↔
        (f.name = userAgentName ↔ f'.name = userAgentName) ∨ f.value = defaultUserAgent := by
      constructor
      · intro H; exact H f hf f' hf' ha ha'
      · intro H g hg g' hg' hga hga'
        rw [eq_of_folded hd hg hf (hga.trans ha.symm), eq_of_folded hd' hg' hf' (hga'.trans ha'.symm)]
        exact H
    rw [hcond]
    by_cases h₁ : f.name = userAgentName <;> by_cases h₂ : f'.name = userAgentName <;>
      simp [h₁, h₂, eq_comm]
  · have hno : ∀ f ∈ b.fields, ¬ f.IsAgent := fun f hf ha => hex ⟨f, hf, ha⟩
    have hno' : ∀ f ∈ b'.fields, ¬ f.IsAgent := by
      intro f' hf' ha'
      have hm : f'.folded ∈ b.fields.map HeaderField.folded := by
        rw [h.folded]; exact List.mem_map_of_mem hf'
      obtain ⟨f, hf, he⟩ := List.mem_map.1 hm
      exact hno f hf (he.trans ha')
    rw [userAgent_of_no_agent hno, userAgent_of_no_agent hno']
    exact iff_of_true rfl fun f hf _ _ ha => absurd ha (hno f hf)

/-- A block whose only field gives the agent `curl` under this name. -/
def curlField (name : Bytes) (hc : COLON ∉ name) (hlf : LF ∉ name) : HeaderField where
  name
  blanks := [SP]
  value := lit "curl"
  name_colon := hc
  name_lf := hlf
  blanks_blank := List.forall_mem_singleton.2 rfl
  value_lf := by decide +kernel
  value_head := by
    intro b hb
    obtain rfl : 99 = b := Option.some.inj hb
    decide

def fieldBlock (f : HeaderField) : HeaderBlock where
  requestLine := lit "GET / HTTP/1.1"
  requestEnd := .crlf
  lines := [⟨.field f, .crlf, fun _ => rfl⟩]
  blankEnd := .crlf
  requestLine_lf := by decide +kernel

def agentSpelled : HeaderField := curlField userAgentName (by decide +kernel) (by decide +kernel)

def agentLowered : HeaderField := curlField (lit "user-agent") (by decide +kernel) (by decide +kernel)

theorem fieldBlock_recased_of {f f' : HeaderField} (hn : f.folded = f'.folded) (hb : f.blanks = f'.blanks)
    (hv : f.value = f'.value) : (fieldBlock f).Recased (fieldBlock f') :=
  ⟨rfl, rfl, .cons ⟨.field hn hb hv, rfl⟩ .nil, rfl⟩

theorem fieldBlock_recased : (fieldBlock agentSpelled).Recased (fieldBlock agentLowered) :=
  fieldBlock_recased_of (by decide +kernel) (by decide +kernel) (by decide +kernel)

theorem fieldBlock_distinctNames (f : HeaderField) : (fieldBlock f).DistinctNames := List.nodup_singleton _

theorem generateRequest_recased_curl :
    (∃ (b : HeaderBlock) (rest : Bytes), (fieldBlock agentLowered).text = b.text ++ rest) ∧
    (generateRequest (parseRequest ((fieldBlock agentSpelled).text ++ [])) [] =
        generateRequest (parseRequest ((fieldBlock agentLowered).text ++ [])) [] ↔
      ∀ f ∈ (fieldBlock agentSpelled).fields, ∀ f' ∈ (fieldBlock agentLowered).fields, f.IsAgent → f'.IsAgent →
        (f.name = userAgentName ↔ f'.name = userAgentName) ∨ f.value = defaultUserAgent) ∧
    userAgent (parseRequest ((fieldBlock agentLowered).text ++ [])) = defaultUserAgent := by
  refine ⟨generateRequest_recased.1 _ (by decide +kernel),
    generateRequest_recased.2.1 _ _ [] [] [] fieldBlock_recased (fieldBlock_distinctNames _), ?_⟩
  have ha : agentLowered.IsAgent := by
    unfold HeaderField.IsAgent; decide +kernel
  rw [generateRequest_recased.2.2 _ [] agentLowered (fieldBlock_distinctNames _) (List.mem_singleton.2 rfl) ha]
  decide +kernel

/-- A client that writes `user-agent` is not forwarded under its own agent. -/
theorem generateRequest_not_case_insensitive :
    ¬ ∀ (b b' : HeaderBlock) (host : Bytes), IsHeaderBlock b.text → IsHeaderBlock b'.text → b.Recased b' →
      b.DistinctNames →
      generateRequest (parseRequest b.text) host = generateRequest (parseRequest b'.text) host := by
  intro h
  have he := h (fieldBlock agentSpelled) (fieldBlock agentLowered) [] (by decide +kernel) (by decide +kernel)
    fieldBlock_recased (fieldBlock_distinctNames _)
  rw [← List.append_nil (fieldBlock agentSpelled).text, ← List.append_nil (fieldBlock agentLowered).text,
    fieldBlock_recased.generateRequest_iff] at he
  have ha : agentSpelled.IsAgent := isAgent_of_name rfl
  have ha' : agentLowered.IsAgent := by
    unfold HeaderField.IsAgent; decide +kernel
  rw [userAgent_of_isAgent (fieldBlock_distinctNames _) (List.mem_singleton.2 rfl) ha,
    userAgent_of_isAgent (fieldBlock_distinctNames _) (List.mem_singleton.2 rfl) ha'] at he
  exact absurd he (by decide +kernel)

end MarketBridge
