import Mathlib.Data.Set.Finite.Basic
import Mathlib.Order.Monotone.Basic
import TensorKit.Proofs.Operator.GradientCalls
/-!
# Chains of gradients

After an operator come the nodes of its gradient, of the gradient of that one, and so on, as the entries name each
other.  Every round checks the signatures, but no round looks back.

* **Runs.**  `Run` is one whole chain with its result; the generator computes it (`nodeChain_eq_some_iff`).
* **Ends.**  The entries are finitely many, so a chain without an end comes back to a pair of entries where it was
  before (`exists_run_iff`).  Such a chain may pass all checks, and then nothing is generated at all
  (`generate_eq_none_iff`).
* **Names.**  A chain that ends declares one class for each name in it (`Run.declares`).  Chains of different operators
  may meet, and different names may give one class (`nodup_classes_iff`).
-/

namespace TensorKit.Operator.Eager

open Naming Relation Option

namespace Setting

variable {c : Setting} {e g : Entry} {next : Option Entry} {r : Making (List NodeText)}
variable {t : FunctionText × List (String × CoreOp)}

/-! ## 1. Rounds -/

def round (c : Setting) (e g : Entry) : Making (List NodeText × Option Entry) := nodeRound c.space c.forward c.table e g

theorem gradientOf_eq_ok (h : gradientOf c.table e = .ok next) :
    (next = none ∧ e.backward = none) ∨ ∃ n g, next = some g ∧ e.backward = some n ∧ c.table.get? n = some g := by
  unfold gradientOf at h
  split at h
  next hnone => exact .inl ⟨(Except.ok.inj h).symm, hnone⟩
  next n hn =>
  split at h
  next g hg => exact .inr ⟨n, g, (Except.ok.inj h).symm, hn, hg⟩
  · cases h

def Declares (text node : String) : Prop :=
  ∃ rest, text = s!"\nclass {node} : public egr::GradNodeBase \x7b\n public:\n  " ++ rest

theorem Declares.head (node : String) :
    Declares s!"\nclass {node} : public egr::GradNodeBase \x7b\n public:\n  " node :=
  ⟨"", String.append_empty.symm⟩

theorem Declares.append {text node : String} (h : Declares text node) (t : String) : Declares (text ++ t) node := by
  obtain ⟨rest, rfl⟩ := h
  exact ⟨rest ++ t, String.append_assoc⟩

theorem declares_nodeDeclaration (g : Gradient) : Declares (nodeDeclaration g) (gradNodeName g.name) := by
  unfold nodeDeclaration
  dsimp only
  repeat first | with_reducible exact .head _ | refine .append ?_ _

/-- **Step lemma**: a round declares the class of the gradient that the operator names, and finds the next one. -/
theorem round_eq_ok {node : List NodeText} (h : c.round e g = .ok (node, next)) :
    gradientOf c.table g = .ok next ∧ ∃ n t, e.backward = some n ∧ node = [t] ∧
      Declares t.declaration (gradNodeName n) := by
  obtain ⟨next', hnext, f, hf, h⟩ := of_bind₂_eq_ok h
  obtain ⟨-, -, -, grad, -, -, hgrad, -, -, hname⟩ := matched_of_ofEntries hf
  obtain ⟨following, htext⟩ : ∃ following, (fun t => ([t], next')) <$> nodeText c.space c.forward f grad following =
      .ok (node, next) := by
    cases next' with
    | none => exact ⟨none, by simpa [hgrad] using h⟩
    | some k =>
      obtain ⟨f', -, following, -, h⟩ := of_bind₂_eq_ok h
      exact ⟨following, by simpa [hgrad] using h⟩
  obtain ⟨t, ht, hpair⟩ := exists_of_map_eq_ok htext
  obtain ⟨rfl, rfl⟩ := Prod.mk.inj hpair
  have hdeclares : Declares t.declaration (gradNodeName grad.name) := by
    obtain ⟨definition, -, ht⟩ := of_bind_eq_ok ht
    rw [← Except.ok.inj ht]
    exact declares_nodeDeclaration grad
  exact ⟨hnext, grad.name, t, hname, rfl, hdeclares⟩

/-! ## 2. Runs -/

/-- The nodes of a gradient operator and of the gradients after it, or the first failure among them. -/
inductive Run (c : Setting) : Entry → Entry → Making (List NodeText) → Prop where
  | failed {e g err} (h : c.round e g = .error err) : Run c e g (.error err)
  | last {e g node} (h : c.round e g = .ok (node, none)) : Run c e g (.ok node)
  | next {e g h node r} (hround : c.round e g = .ok (node, some h)) (hrun : Run c (asForward g) h r) :
    Run c e g (r.map (node ++ ·))

theorem nodeChain_eq_some_iff {nodes : List NodeText} :
    c.nodeChain nodes e g = some r ↔ ∃ r', Run c e g r' ∧ r = r'.map (nodes ++ ·) := by
  constructor
  · refine nodeChain.partial_correctness c
      (fun nodes e g r => ∃ r', Run c e g r' ∧ r = r'.map (nodes ++ ·)) ?_ nodes e g r
    intro chain ih nodes e g r h
    split at h
    next hround => exact ⟨_, .failed hround, (some.inj h).symm⟩
    next hround => exact ⟨_, .last hround, (some.inj h).symm⟩
    next hround =>
    obtain ⟨r', hrun, rfl⟩ := ih _ _ _ _ h
    refine ⟨_, .next hround hrun, ?_⟩
    cases r' <;> simp [Except.map]
  · rintro ⟨r', hrun, rfl⟩
    induction hrun generalizing nodes with
    | failed h | last h =>
      rw [round] at h
      rw [nodeChain, h]
      rfl
    | @next _ _ _ _ r hround _ ih =>
      rw [round] at hround
      rw [nodeChain, hround]
      refine ih.trans ?_
      cases r <;> simp [Except.map]

/-! ## 3. Ends -/

/-- From an operator and its gradient to that gradient and its own, if the round succeeds. -/
def Next (c : Setting) (s t : Entry × Entry) : Prop :=
  ∃ node, c.round s.1 s.2 = .ok (node, some t.2) ∧ t.1 = asForward s.2

/-- A chain that comes back to where it was. -/
def Circular (c : Setting) (s : Entry × Entry) : Prop := ∃ t, ReflTransGen c.Next s t ∧ TransGen c.Next t t

theorem Circular.exists_next {s : Entry × Entry} (h : c.Circular s) : ∃ t, c.Next s t ∧ c.Circular t := by
  obtain ⟨u, hsu, huu⟩ := h
  rcases ReflTransGen.cases_head hsu with rfl | ⟨t, ht, htu⟩
  · obtain ⟨t, ht, hts⟩ := TransGen.head'_iff.mp huu
    exact ⟨t, ht, s, hts, huu⟩
  · exact ⟨t, ht, u, htu, huu⟩

theorem Run.not_circular (h : c.Run e g r) : ¬ c.Circular (e, g) := by
  induction h with
  | failed h | last h =>
    intro hcircular
    obtain ⟨t, ⟨node, hround, -⟩, -⟩ := hcircular.exists_next
    simp [h] at hround
  | next hround _ ih =>
    intro hcircular
    obtain ⟨⟨a, b⟩, ⟨node, hab, rfl⟩, hnext⟩ := hcircular.exists_next
    simp_all

theorem exists_next_of_not_run (h : ¬ ∃ r, c.Run e g r) : ∃ t, c.Next (e, g) t ∧ ¬ ∃ r, c.Run t.1 t.2 r := by
  rcases hround : c.round e g with err | ⟨node, _ | k⟩
  · exact absurd ⟨_, .failed hround⟩ h
  · exact absurd ⟨_, .last hround⟩ h
  · refine ⟨(asForward g, k), ⟨node, hround, rfl⟩, ?_⟩
    rintro ⟨r, hr⟩
    exact h ⟨_, .next hround hr⟩

theorem mem_of_next {s t : Entry × Entry} (h : c.Next s t) : t.2 ∈ c.table.map Prod.snd := by
  obtain ⟨node, hround, -⟩ := h
  obtain ⟨hnone, -⟩ | ⟨n, g, hsome, -, hget⟩ := gradientOf_eq_ok (round_eq_ok hround).1
  · cases hnone
  · cases hsome
    exact List.mem_map_of_mem (Table.mem_of_get?_eq_some hget)

/-- **A chain ends unless it comes back to where it was**: the pairs of entries are finitely many. -/
theorem exists_run_iff : (∃ r, c.Run e g r) ↔ ¬ c.Circular (e, g) := by
  constructor
  · rintro ⟨r, hr⟩
    exact hr.not_circular
  intro hcircular
  by_contra hno
  choose next hnext using fun s : { s : Entry × Entry // ¬ ∃ r, c.Run s.1 s.2 r } => exists_next_of_not_run s.2
  let follow (s : { s : Entry × Entry // ¬ ∃ r, c.Run s.1 s.2 r }) : { s : Entry × Entry // ¬ ∃ r, c.Run s.1 s.2 r } :=
    ⟨next s, (hnext s).2⟩
  let chain (k : Nat) : Entry × Entry := (follow^[k] ⟨(e, g), hno⟩).1
  have hchain : ∀ k, c.Next (chain k) (chain (k + 1)) := by
    intro k
    simp only [chain, Function.iterate_succ_apply']
    exact (hnext _).1
  have hfinite : (insert g { h | h ∈ c.table.map Prod.snd }).Finite := (List.finite_toSet _).insert g
  have hmem : ∀ k, chain k ∈ insert e (asForward '' insert g { h | h ∈ c.table.map Prod.snd }) ×ˢ
      insert g { h | h ∈ c.table.map Prod.snd } := by
    intro k
    induction k with
    | zero => simp [chain]
    | succ k ih =>
      obtain ⟨node, -, hfst⟩ := hchain k
      exact ⟨.inr ⟨(chain k).2, ih.2, hfst.symm⟩, .inr (mem_of_next (hchain k))⟩
  obtain ⟨i, j, hij, heq⟩ :=
    Set.Finite.exists_lt_map_eq_of_forall_mem hmem (((hfinite.image asForward).insert e).prod hfinite)
  refine hcircular ⟨chain i, ?_, ?_⟩
  · exact Nat.rel_of_forall_rel_succ_of_le (ReflTransGen c.Next) (fun k => .single (hchain k)) (Nat.zero_le i)
  · have hback := Nat.rel_of_forall_rel_succ_of_lt (TransGen c.Next) (fun k => .single (hchain k)) hij
    rwa [← heq] at hback

/-! ## 4. Whole files -/

def text (c : Setting) (e : Entry) : ExceptT Error Option OperatorText := operatorText c.space c.forward c.table e

theorem liftM_ok_bind {α β : Type} (a : α) (k : α → ExceptT Error Option β) :
    (liftM (Except.ok a : Making α) : ExceptT Error Option α) >>= k = k a := rfl

theorem gradientOf_of_readOperator
    (h : readOperator c.space c.table e = .ok (t, next)) : gradientOf c.table e = .ok next := by
  obtain ⟨n, hn, f, -, h⟩ := of_bind₂_eq_ok h
  obtain ⟨text, -, h⟩ := of_bind_eq_ok h
  cases h
  exact hn

theorem run_text (h : readOperator c.space c.table e = .ok (t, next)) : (c.text e).run =
      (nodesAfter c.space c.forward c.table e next).map (Except.map (OperatorText.mk t.1 t.2)) := by
  rw [text, operatorText, h, liftM_ok_bind]
  rcases nodesAfter c.space c.forward c.table e next with _ | _ | _ <;>
    simp [ExceptT.run, ExceptT.mk, bind, ExceptT.bind, ExceptT.bindCont, Except.map, pure, ExceptT.pure]

theorem run_text_eq_none_iff : (c.text e).run = none ↔
    ∃ t g, readOperator c.space c.table e = .ok (t, some g) ∧ c.Circular (e, g) := by
  rcases hread : readOperator c.space c.table e with err | ⟨t, _ | g⟩
  · rw [text, operatorText, hread]
    exact ⟨fun h => (by cases h), by simp⟩
  · simp [run_text hread, nodesAfter]
  · have hchain : c.nodeChain [] e g = none ↔ c.Circular (e, g) := by
      rw [← not_iff_not, ← exists_run_iff, eq_none_iff_forall_ne_some]
      simp [nodeChain_eq_some_iff]
    simp [run_text hread, nodesAfter, hchain]

/-- An operator whose chain comes back, after operators that can all be generated. -/
inductive Stuck (c : Setting) : List Entry → Prop where
  | here {e es t g} (hread : readOperator c.space c.table e = .ok (t, some g)) (h : c.Circular (e, g)) :
    Stuck c (e :: es)
  | later {e es t} (he : (c.text e).run = some (.ok t)) (h : Stuck c es) : Stuck c (e :: es)

theorem run_mapM_eq_none_iff : ∀ {es}, (es.mapM c.text).run = none ↔ c.Stuck es
  | [] => ⟨fun h => (by cases h), fun h => (by cases h)⟩
  | e :: es => by
    have hrun : (c.text e).run = none ∨ (∃ t, (c.text e).run = some (.ok t) ∧ c.Stuck es) ↔ c.Stuck (e :: es) := by
      rw [run_text_eq_none_iff]
      constructor
      · rintro (⟨t, g, hread, h⟩ | ⟨t, he, h⟩)
        · exact .here hread h
        · exact .later he h
      · rintro (⟨hread, h⟩ | ⟨he, h⟩)
        · exact .inl ⟨_, _, hread, h⟩
        · exact .inr ⟨_, he, h⟩
    rw [← hrun, ← run_mapM_eq_none_iff]
    rcases he : (c.text e).run with _ | _ | t <;> simp [he]

theorem run_generate {ops grads : List Entry} (htable : gradientTable grads = .ok c.table)
    (hforward : ops.mapM (fun e => (found e.op : Making String)) = .ok c.forward) : (generate c.space ops grads).run =
      ((ops.filter fun e => !isHandWritten e).mapM c.text).run.map (Except.map Generated.mk) := by
  rw [generate, htable, liftM_ok_bind, hforward, liftM_ok_bind]
  simp
  rfl

/-- **Chains without an end are all that keeps the generator from an answer.** -/
theorem generate_eq_none_iff {space : String} {ops grads : List Entry} : (generate space ops grads).run = none ↔
    ∃ table forward, gradientTable grads = .ok table ∧ ops.mapM (fun e => (found e.op : Making String)) = .ok forward ∧
      Stuck ⟨space, forward, table⟩ (ops.filter fun e => !isHandWritten e) := by
  cases htable : gradientTable grads with
  | error err =>
    rw [generate, htable]
    exact ⟨fun h => (by cases h), by simp⟩
  | ok table =>
    cases hforward : ops.mapM (fun e => (found e.op : Making String)) with
    | error err =>
      rw [generate, htable, hforward]
      exact ⟨fun h => (by cases h), by simp⟩
    | ok forward => simp [run_generate (c := ⟨space, forward, table⟩) htable hforward, run_mapM_eq_none_iff]

def unary (name : String) : Entry where
  op := some name
  args := some "(Tensor x)"
  output := some "Tensor(out)"
  backward := some (gradName name)
  fields := ["op", "args", "output", "backward"]

def unaryGrad (name : String) (backward : Option String) : Entry where
  backwardOp := some (gradName name)
  forward := some (name ++ " (Tensor x) -> Tensor(out)")
  args := some "(Tensor x)"
  output := some "Tensor(x_grad)"
  backward := backward
  fields := ["backward_op", "forward", "args", "output"]

/-- A gradient that is its own gradient. -/
def looped : Entry := unaryGrad "f" (some "f_grad")

/-- A gradient that names itself passes all checks, again and again. -/
theorem generate_eq_none_iff_looped : (generate "" [unary "f"] [looped]).run = none := by
  let c : Setting := ⟨"", ["f"], [("f_grad", looped)]⟩
  have hround : ∀ {e}, (c.round e looped).isOk → c.Next (e, looped) (asForward looped, looped) := by
    intro e hok
    obtain ⟨⟨node, next⟩, h⟩ := exists_of_isOk hok
    obtain rfl : some looped = next := Except.ok.inj (round_eq_ok h).1
    exact ⟨node, h, rfl⟩
  obtain ⟨⟨t, next⟩, hread⟩ := exists_of_isOk (x := readOperator c.space c.table (unary "f")) (by decide +kernel)
  obtain rfl : some looped = next := Except.ok.inj (gradientOf_of_readOperator hread)
  refine generate_eq_none_iff.mpr ⟨c.table, c.forward, rfl, rfl, .here hread ?_⟩
  exact ⟨(asForward looped, looped), .single (hround (by decide +kernel)), .single (hround (by decide +kernel))⟩

/-! ## 5. Names -/

/-- The names of the gradients after an operator, from the one that it names itself. -/
inductive Chain (table : Table String Entry) : Option String → List String → Prop where
  | nil : Chain table none []
  | cons {n g ns} (hget : table.get? n = some g) (h : Chain table g.backward ns) : Chain table (some n) (n :: ns)

theorem Run.declares (h : c.Run e g r) {nodes : List NodeText} (hr : r = .ok nodes) :
    ∃ n ns, e.backward = some n ∧ Chain c.table g.backward ns ∧
      List.Forall₂ Declares (nodes.map NodeText.declaration) ((n :: ns).map gradNodeName) := by
  induction h generalizing nodes with
  | failed h => cases hr
  | last h =>
    cases hr
    obtain ⟨hnext, n, t, hn, rfl, ht⟩ := round_eq_ok h
    obtain ⟨-, hnone⟩ | ⟨_, _, hsome, -, -⟩ := gradientOf_eq_ok hnext
    · exact ⟨n, [], hn, hnone ▸ .nil, .cons ht .nil⟩
    · cases hsome
  | next hround _ ih =>
    obtain ⟨rest, rfl, rfl⟩ := exists_of_map_eq_ok hr
    obtain ⟨hnext, n, t, hn, rfl, ht⟩ := round_eq_ok hround
    obtain ⟨m, ns, hm, hchain, hrest⟩ := ih rfl
    obtain ⟨hnone, -⟩ | ⟨m', h, hsome, hm', hget⟩ := gradientOf_eq_ok hnext
    · cases hnone
    · cases hsome
      obtain rfl : m' = m := some.inj (hm'.symm.trans hm)
      exact ⟨n, m' :: ns, hn, hm' ▸ .cons hget hchain, .cons ht hrest⟩

theorem declares_of_text {t : OperatorText} (h : (c.text e).run = some (.ok t)) : ∃ ns, Chain c.table e.backward ns ∧
    List.Forall₂ Declares (t.nodes.map NodeText.declaration) (ns.map gradNodeName) := by
  rcases hread : readOperator c.space c.table e with err | ⟨u, next⟩
  · rw [text, operatorText, hread] at h
    cases h
  · rw [run_text hread] at h
    obtain ⟨r, hr, h⟩ := map_eq_some_iff.mp h
    obtain ⟨nodes, rfl, rfl⟩ := exists_of_map_eq_ok h
    obtain ⟨rfl, hnone⟩ | ⟨n, g, rfl, hn, hget⟩ := gradientOf_eq_ok (gradientOf_of_readOperator hread)
    · cases hr
      exact ⟨[], hnone ▸ .nil, .nil⟩
    · obtain ⟨r, hrun, hr⟩ := nodeChain_eq_some_iff.mp hr
      obtain ⟨nodes, rfl, rfl⟩ := exists_of_map_eq_ok hr.symm
      obtain ⟨n', ns, hn', hchain, hdeclares⟩ := hrun.declares rfl
      obtain rfl : n' = n := some.inj (hn'.symm.trans hn)
      exact ⟨n' :: ns, hn' ▸ .cons hget hchain, hdeclares⟩

/-- **Run lemma**: all operators declare the classes of their chains. -/
theorem declares_of_mapM : ∀ {es ts}, (es.mapM c.text).run = some (.ok ts) →
    ∃ chains : List (List String), List.Forall₂ (fun e ns => Chain c.table e.backward ns) es chains ∧
      List.Forall₂ Declares ((ts.flatMap OperatorText.nodes).map NodeText.declaration) (chains.flatten.map gradNodeName)
  | [], ts, h => by
    obtain rfl : [] = ts := by simpa [ExceptT.run, pure, ExceptT.pure, ExceptT.mk] using h
    exact ⟨[], .nil, .nil⟩
  | e :: es, ts, h => by
    rcases he : (c.text e).run with _ | err | t <;> simp [he] at h
    obtain ⟨r, hr, h⟩ := h
    obtain ⟨rest, rfl, rfl⟩ := exists_of_map_eq_ok h
    obtain ⟨ns, hns, hnodes⟩ := declares_of_text he
    obtain ⟨chains, hchains, hrest⟩ := declares_of_mapM hr
    exact ⟨ns :: chains, .cons hns hchains, by simpa using List.rel_append hnodes hrest⟩

/-- **The classes of all nodes are distinct exactly if no name is in the chains twice and no two names in them give one
class.** -/
theorem nodup_classes_iff {space : String} {ops grads : List Entry} {out : Generated}
    (h : (generate space ops grads).run = some (.ok out)) :
    ∃ (table : Table String Entry) (chains : List (List String)), gradientTable grads = .ok table ∧
      List.Forall₂ (fun e ns => Chain table e.backward ns) (ops.filter fun e => !isHandWritten e) chains ∧
      List.Forall₂ Declares (out.nodes.map NodeText.declaration) (chains.flatten.map gradNodeName) ∧
      ((chains.flatten.map gradNodeName).Nodup ↔ chains.flatten.Nodup ∧
        ∀ n ∈ chains.flatten, ∀ m ∈ chains.flatten, gradNodeName n = gradNodeName m → n = m) := by
  cases htable : gradientTable grads with
  | error err =>
    rw [generate, htable] at h
    cases h
  | ok table =>
    cases hforward : ops.mapM (fun e => (found e.op : Making String)) with
    | error err =>
      rw [generate, htable, hforward] at h
      cases h
    | ok forward =>
      rw [run_generate (c := ⟨space, forward, table⟩) htable hforward] at h
      obtain ⟨r, hr, h⟩ := Option.map_eq_some_iff.mp h
      obtain ⟨ts, rfl, rfl⟩ := exists_of_map_eq_ok h
      obtain ⟨chains, hchains, hdeclares⟩ := declares_of_mapM hr
      refine ⟨table, chains, rfl, hchains, hdeclares, ?_, ?_⟩
      · intro hclasses
        have hnames := hclasses.of_map gradNodeName
        exact ⟨hnames, (List.nodup_map_iff_inj_on hnames).mp hclasses⟩
      · rintro ⟨hnames, hinj⟩
        exact (List.nodup_map_iff_inj_on hnames).mpr hinj

/-- Two names that differ in an underscore and a capital letter give one class. -/
theorem nodup_classes_iff_unary : ∃ (out : Generated) (chains : List (List String)),
    (generate "" [unary "a_b", unary "aB"] [unaryGrad "a_b" none, unaryGrad "aB" none]).run = some (.ok out) ∧
    List.Forall₂ Declares (out.nodes.map NodeText.declaration) (chains.flatten.map gradNodeName) ∧
    ¬ (chains.flatten.map gradNodeName).Nodup := by
  let c : Setting := ⟨"", ["a_b", "aB"], [("a_b_grad", unaryGrad "a_b" none), ("aB_grad", unaryGrad "aB" none)]⟩
  have htext : ∀ name, (readOperator c.space c.table (unary name)).isOk →
      gradientOf c.table (unary name) = .ok (some (unaryGrad name none)) → (c.round (unary name) (unaryGrad name none)).isOk →
      ∃ t, (c.text (unary name)).run = some (.ok t) := by
    intro name hread hgrad hround
    obtain ⟨⟨t, next⟩, hread⟩ := exists_of_isOk hread
    obtain rfl : some (unaryGrad name none) = next := Except.ok.inj (hgrad.symm.trans (gradientOf_of_readOperator hread))
    obtain ⟨⟨node, next⟩, hround⟩ := exists_of_isOk hround
    obtain rfl : none = next := Except.ok.inj (round_eq_ok hround).1
    rw [run_text hread, nodesAfter, nodeChain_eq_some_iff.mpr ⟨_, .last hround, rfl⟩]
    exact ⟨_, rfl⟩
  obtain ⟨s, hs⟩ := htext "a_b" (by decide +kernel) rfl (by decide +kernel)
  obtain ⟨t, ht⟩ := htext "aB" (by decide +kernel) rfl (by decide +kernel)
  have hrun : (generate "" [unary "a_b", unary "aB"] [unaryGrad "a_b" none, unaryGrad "aB" none]).run =
      some (.ok ⟨[s, t]⟩) := by
    refine (run_generate (c := c) rfl rfl).trans ?_
    rw [show [unary "a_b", unary "aB"].filter (fun e => !isHandWritten e) = [unary "a_b", unary "aB"] from rfl]
    simp [hs, ht, Except.map]
  obtain ⟨table, chains, -, hchains, hdeclares, hiff⟩ := nodup_classes_iff hrun
  refine ⟨_, chains, hrun, hdeclares, fun hnodup => ?_⟩
  obtain _ | ⟨⟨-, -⟩, _ | ⟨⟨-, -⟩, -⟩⟩ := hchains
  exact absurd ((hiff.mp hnodup).2 (gradName "a_b") (by simp) (gradName "aB") (by simp) (by decide +kernel)) (by decide)

end Setting

end TensorKit.Operator.Eager
