import Mathlib.Data.List.Nodup
import TensorKit.Operator.Api.Registration
import TensorKit.Proofs.Text.Cutting
import TensorKit.Proofs.Traversal
/-!
# Registered shape rules

Operators can share a kernel.  Each of them registers its shape rule for it, and only the line of a registration is
looked for before it is added, so a kernel can be registered with several rules.  A kernel is wrapped once at most, and
its wrapper is registered (`ruleTable_registers`).
-/

namespace TensorKit.Operator.Api

open List

variable {t : RuleTable} {e : RuleEntry}

/-- What is known of the wrappers and registrations of operators. -/
structure RuleTable.Sound (t : RuleTable) : Prop where
  distinct : t.registrations.Nodup
  once : t.wrapped.Nodup
  names : t.wrappers.map RuleWrapper.name = t.wrapped.map wrapperName
  registered : ∀ k ∈ t.wrapped, Text.contains (Registration.line ⟨k, wrapperName k⟩) t.registrationText

/-- What an operator can add: a wrapper is added with its registration, and for a new kernel only. -/
theorem ruleEntry_cases {wrapped : List String} {api : Api} (h : ruleEntry wrapped api = .ok e) :
    e.wrapper = none ∨ ∃ w k, e = ⟨some w, some ⟨k, wrapperName k⟩⟩ ∧ w.name = wrapperName k ∧ k ∉ wrapped := by
  unfold ruleEntry at h
  split at h
  · obtain ⟨kernel, -, h⟩ := of_bind_eq_ok h
    obtain ⟨rule, -, func, -, h⟩ := of_bind₂_eq_ok h
    split at h
    next params _ =>
      unfold wrapRule at h
      split at h
      · exact .inl (Except.ok.inj h ▸ rfl)
      next hnew =>
        dsimp only at h
        split at h
        · exact .inl (Except.ok.inj h ▸ rfl)
        · obtain ⟨_, -, ps, -, h⟩ := of_bind₂_eq_ok h
          obtain ⟨args, -, h⟩ := of_bind_eq_ok h
          exact .inr ⟨_, kernel, (Except.ok.inj h).symm, rfl, by simpa using hnew⟩
    · exact .inl (Except.ok.inj h ▸ rfl)
  · exact .inl (Except.ok.inj h ▸ rfl)

theorem toList_registrationText (t : RuleTable) :
    t.registrationText.toList = t.registrations.flatMap (·.line.toList) := by
  rw [RuleTable.registrationText, String.toList_join, flatMap_map]

theorem contains_line {r : Registration} (h : r ∈ t.registrations) : Text.contains r.line t.registrationText := by
  obtain ⟨before, after, hsplit⟩ := append_of_mem h
  rw [Text.contains_iff, toList_registrationText, hsplit, flatMap_append, flatMap_cons]
  exact ⟨_, _, append_assoc _ _ _⟩

theorem contains_mono {t' : RuleTable} (h : t.registrations <+: t'.registrations) {s : String}
    (hs : Text.contains s t.registrationText) : Text.contains s t'.registrationText := by
  obtain ⟨added, hadded⟩ := h
  rw [Text.contains_iff, toList_registrationText] at hs ⊢
  rw [← hadded, flatMap_append]
  exact hs.trans (prefix_append _ _).isInfix

/-- Registrations are added at the end, and those that are not added have their line in the text. -/
theorem registrations_add (ht : t.registrations.Nodup) (e : RuleEntry) : (t.add e).registrations.Nodup ∧
    t.registrations <+: (t.add e).registrations ∧
      ∀ r ∈ e.registration, Text.contains r.line (t.add e).registrationText := by
  obtain ⟨w, _ | r⟩ := e
  · exact ⟨ht, prefix_rfl, by simp⟩
  · by_cases hold : Text.contains r.line t.registrationText
    · have hadd : (t.add ⟨w, some r⟩).registrations = t.registrations := if_pos hold
      have hprefix : t.registrations <+: (t.add ⟨w, some r⟩).registrations := hadd ▸ prefix_rfl
      refine ⟨hadd ▸ ht, hprefix, ?_⟩
      rintro _ ⟨⟩
      exact contains_mono hprefix hold
    · have hadd : (t.add ⟨w, some r⟩).registrations = t.registrations ++ [r] := if_neg hold
      have hnew : r ∉ t.registrations := fun hr => hold (contains_line hr)
      refine ⟨hadd ▸ nodup_append_comm.mp (nodup_cons.mpr ⟨hnew, ht⟩), hadd ▸ prefix_append _ _, ?_⟩
      rintro _ ⟨⟩
      exact contains_line (hadd ▸ mem_concat_self)

/-- **Step lemma**: an operator adds no line twice and no second wrapper of a kernel. -/
theorem RuleTable.Sound.add (ht : t.Sound) {api : Api} (h : ruleEntry t.wrapped api = .ok e) : (t.add e).Sound := by
  obtain ⟨hdist, hprefix, hline⟩ := registrations_add ht.distinct e
  rcases ruleEntry_cases h with hnone | ⟨w, k, rfl, hname, hnew⟩
  · have hwrapped : (t.add e).wrapped = t.wrapped := by simp [RuleTable.add, hnone]
    have hwrappers : (t.add e).wrappers = t.wrappers := by simp [RuleTable.add, hnone]
    exact ⟨hdist, hwrapped ▸ ht.once, by rw [hwrapped, hwrappers, ht.names],
      fun k hk => contains_mono hprefix (ht.registered k (hwrapped ▸ hk))⟩
  · refine ⟨hdist, nodup_append_comm.mp (nodup_cons.mpr ⟨hnew, ht.once⟩), ?_, fun k' hk' => ?_⟩
    · simp [RuleTable.add, ht.names, hname]
    · rcases mem_append.mp hk' with hk' | hk'
      · exact contains_mono hprefix (ht.registered k' hk')
      · exact mem_singleton.mp hk' ▸ hline _ rfl

/-- **A kernel has a line for each of its rules, and one wrapper at most.**  Lines for one kernel have different rules.
Each kernel that is wrapped has one wrapper, which is declared, defined and registered, and the wrappers differ in their
names if and only if those kernels still differ once they are capitalized. -/
theorem ruleTable_registers {entries : List Entry} (h : ruleTable entries = .ok t) :
    t.registrations.Pairwise (fun r r' => r.kernel = r'.kernel → r.rule ≠ r'.rule) ∧ t.wrapped.Nodup ∧
      t.wrappers.map RuleWrapper.name = t.wrapped.map wrapperName ∧
      (∀ k ∈ t.wrapped, Text.contains (Registration.line ⟨k, wrapperName k⟩) t.registrationText) ∧
      ((t.wrappers.map RuleWrapper.name).Nodup ↔
        ∀ k ∈ t.wrapped, ∀ k' ∈ t.wrapped, wrapperName k = wrapperName k' → k = k') := by
  have hsound : t.Sound := by
    refine of_foldlM_eq_ok _ (fun {t e t'} ht h => ?_) h ⟨nodup_nil, nodup_nil, rfl, by simp⟩
    obtain ⟨api, -, e, he, h⟩ := of_bind₂_eq_ok h
    exact Except.ok.inj h ▸ ht.add he
  refine ⟨hsound.distinct.imp fun {r r'} hne hkernel hrule => hne ?_, hsound.once, hsound.names, hsound.registered, ?_⟩
  · rw [hsound.names]
    exact nodup_map_iff_inj_on hsound.once
  · cases r
    cases r'
    simp_all

/-- An operator whose shape rule takes some of its inputs. -/
def sharing (name rule : String) (params : Option (List Param)) : Entry where
  op := some name
  args := some "(Tensor x, Tensor y)"
  output := some "Tensor(out)"
  inferMeta := some ⟨some rule, params, []⟩
  kernel := some { func := some "k" }
  fields := ["op", "args", "output", "infer_meta", "kernel"]

def sharingKernel : List Entry := [sharing "f" "F" none, sharing "g" "G" none, sharing "h" "H" (some [.name "x"])]

/-- Three operators with one kernel, the last of them with a wrapper. -/
theorem ruleTable_registers_sharing : ∃ t, ruleTable sharingKernel = .ok t ∧
    t.registrations = [⟨"k", "F"⟩, ⟨"k", "G"⟩, ⟨"k", "KInferMeta"⟩] ∧
      t.wrappers.map RuleWrapper.name = t.wrapped.map wrapperName := by
  obtain ⟨t, ht, hlines⟩ := exists_of_map_toOption (g := RuleTable.registrations) (x := ruleTable sharingKernel)
    (b := [⟨"k", "F"⟩, ⟨"k", "G"⟩, ⟨"k", "KInferMeta"⟩]) (by decide +kernel)
  exact ⟨t, ht, hlines, (ruleTable_registers ht).2.2.1⟩

end TensorKit.Operator.Api
