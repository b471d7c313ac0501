import Mathlib
import TensorKit.Batch.Flat
import TensorKit.Proofs.Text.Cutting
/-!
# A batch that is taken apart and put together again

A batch is taken apart into its arrays and a structure with a numbered mark in the place of each array.  Putting it
together reads the number of each mark, takes the array with that number, and writes null in its place.

A written number is read back (`wholeOf?_toString`), so a mark leads to its array (`takeMarked_mark`): this is the step.
The marks stand in the order of the arrays, so in front of a part whose first array has the number `i` exactly the
arrays before `i` are used up, and behind the part exactly those before its end (`Restores`); by induction every part is
restored (`Part.restores`), and a whole batch passes the check that no array is left over (`restore_separate`).
-/

namespace TensorKit

open List Text Value

variable {v : Value}

namespace Number

/-! ## 1. Written numbers -/

theorem dropUnderscores_of_notMem {cs : List Char} (h : '_' ∉ cs) : dropUnderscores cs = some cs := by
  fun_induction dropUnderscores cs with
  | case1 => rfl
  | case2 | case3 | case4 | case5 => simp at h
  | case6 a cs _ _ _ ih =>
    rw [ih fun hmem => h (.tail _ hmem)]
    rfl

theorem isBlank_of_isDigit {c : Char} (h : c.isDigit) : isBlank c = false := by
  have hrange : 48 ≤ c.toNat ∧ c.toNat ≤ 57 := Char.isDigit_iff_toNat.mp h
  exact isBlank_of_lt (by omega)

theorem wholeOf?_of_isDigit {s : String} (hne : s.toList ≠ []) (h : ∀ c ∈ s.toList, c.isDigit) :
    wholeOf? s = some (readDigits s.toList : Int) := by
  have hunder : '_' ∉ s.toList := fun hmem => absurd (h _ hmem) (by decide)
  have hminus : '-' ∉ s.toList := fun hmem => absurd (h _ hmem) (by decide)
  have hplus : '+' ∉ s.toList := fun hmem => absurd (h _ hmem) (by decide)
  have hall := all_eq_true.mpr h
  have hstrip : stripChars isBlank s.toList = s.toList := by
    have := congrArg String.toList
      (strip_of_trimmed (trimmed_of_forall hne fun c hc => isBlank_of_isDigit (h c hc)))
    rwa [strip, String.toList_ofList] at this
  rw [wholeOf?, hstrip, dropUnderscores_of_notMem hunder]
  generalize s.toList = ds at hne hminus hplus hall
  simp only [Option.bind_eq_bind, Option.bind_some]
  -- a sign is no digit
  split
  · exact absurd mem_cons_self hminus
  · exact absurd mem_cons_self hplus
  · simp only [isEmpty_eq_false_iff.mpr hne, hall]
    rfl

theorem toList_toString (n : Nat) : (toString n).toList = Nat.toDigits 10 n := by
  rw [Nat.toString_eq_ofList_toDigits, String.toList_ofList]

theorem isDigit_of_mem_toString {n : Nat} {c : Char} (h : c ∈ (toString n).toList) : c.isDigit := by
  rw [toList_toString] at h
  exact Nat.isDigit_of_mem_toDigits (by decide) (by decide) h

/-- A written number is read back. -/
theorem wholeOf?_toString (n : Nat) : wholeOf? (toString n) = some (n : Int) := by
  have hne : (toString n).toList ≠ [] := by
    rw [toList_toString]
    exact Nat.toDigits_ne_nil
  rw [wholeOf?_of_isDigit hne fun c hc => isDigit_of_mem_toString hc, toList_toString, readDigits,
    ← Nat.ofDigitChars_eq_foldl, Nat.ofDigitChars_ten_toDigits]

end Number

namespace Batch

variable (i : Nat)

/-! ## 2. Marks -/

theorem isMark_mark : isMark (mark i) := by
  rw [isMark, hasStart, mark, String.toList_append]
  exact isPrefixOf_iff_prefix.mpr (prefix_append _ _)

theorem replace_markStart : Text.replace markStart "" (mark i) = toString i := by
  obtain ⟨sep, hsep⟩ : ∃ sep, markStart.toList = '_' :: sep := ⟨_, rfl⟩
  have hdigits : '_' ∉ (toString i).toList := fun h => absurd (Number.isDigit_of_mem_toString h) (by decide)
  have hpieces : Text.pieces ('_' :: sep) ('_' :: sep ++ (toString i).toList) = [[], (toString i).toList] := by
    rw [← Text.pieces_of_notMem hdigits]
    exact Text.pieces_append not_mem_nil
  rw [Text.replace, Text.splitText, mark, String.toList_append, hsep, hpieces]
  generalize toString i = digits
  simp

/-! ## 3. Batches -/

/-- Numbers, null and byte strings, which hold no array and are no sequence of parts. -/
def isPlain : Value → Bool
  | .null | .bool _ | .int _ | .float _ | .bytes _ => true
  | _ => false

/-- A part of a batch: arrays, plain values and texts that are no marks, put together by lists, tuples and tables. -/
inductive Part : Value → Prop
  | array (a : NdArray) : Part (.array a)
  | plain {v : Value} : isPlain v → Part v
  | text {s : String} : isMark s = false → Part (.str s)
  | list {xs : List Value} : (∀ x ∈ xs, Part x) → Part (.list xs)
  | tuple {xs : List Value} : (∀ x ∈ xs, Part x) → Part (.tuple xs)
  | labelled {kind : TupleClass} {xs : List Value} : (∀ x ∈ xs, Part x) → Part (.labelled kind xs)
  | table {ps : Pairs} : (∀ p ∈ ps, Part p.2) → Part (.dict ps)

def isBatch : Value → Bool
  | .array _ | .list _ | .tuple _ | .labelled _ _ | .dict _ => true
  | _ => false

theorem isBatch_of_isPlain (h : isPlain v) : isBatch v = false := by cases v <;> first | rfl | cases h

mutual

def arraysIn : Value → List Value
  | .array a => [.array a]
  | .list xs | .tuple xs | .labelled _ xs => arraysInList xs
  | .dict ps => arraysInPairs ps
  | _ => []

def arraysInList : List Value → List Value
  | [] => []
  | x :: xs => arraysIn x ++ arraysInList xs

def arraysInPairs : Pairs → List Value
  | [] => []
  | p :: ps => arraysInPair p ++ arraysInPairs ps

def arraysInPair : Value × Value → List Value
  | (_, v) => arraysIn v

end

theorem separateList_cons (x : Value) (xs : List Value) : separateList i (x :: xs) =
    ((separateFrom i x).1 :: (separateList (i + (separateFrom i x).2.length) xs).1,
      (separateFrom i x).2 ++ (separateList (i + (separateFrom i x).2.length) xs).2) := rfl

/-! A table is a sequence of values beside its keys. -/

theorem arraysInPairs_eq : ∀ ps, arraysInPairs ps = arraysInList (ps.map Prod.snd)
  | [] => rfl
  | (_, _) :: ps => congrArg (_ ++ ·) (arraysInPairs_eq ps)

theorem convertPairs_eq : ∀ ps, convertPairs ps = (ps.map Prod.fst).zip (convertList (ps.map Prod.snd))
  | [] => rfl
  | (_, _) :: ps => congrArg (_ :: ·) (convertPairs_eq ps)

theorem separatePairs_eq : ∀ i ps, separatePairs i ps =
    ((ps.map Prod.fst).zip (separateList i (ps.map Prod.snd)).1, (separateList i (ps.map Prod.snd)).2)
  | _, [] => rfl
  | i, (k, v) :: ps => by
    simp only [separatePairs, separatePair, separatePairs_eq _ ps]
    rfl

theorem restorePairs_eq : ∀ i ps, restorePairs (separatePairs i ps).1 =
    (ps.map Prod.fst).zip <$> restoreList (.ok ()) (separateList i (ps.map Prod.snd)).1
  | _, [] => rfl
  | i, (k, v) :: ps => by
    have ih := restorePairs_eq (i + (separateFrom i v).2.length) ps
    simp only [separatePairs_eq] at ih
    simp [separatePairs_eq, separateList_cons, restorePairs, restorePair, restoreList, ih]

theorem separateFrom_plain (h : isPlain v) (i : Nat) : separateFrom i v = (v, []) := by
  cases v <;> first | rfl | cases h

theorem arraysIn_plain (h : isPlain v) : arraysIn v = [] := by cases v <;> first | rfl | cases h

theorem convert_plain (h : isPlain v) : convert v = v := by cases v <;> first | rfl | cases h

theorem restoreField_plain {place : Fallible Unit} (h : isPlain v) :
    restoreField place v = pure v := by
  cases v <;> first | rfl | cases h

theorem separateList_arrays {xs : List Value} (h : ∀ x ∈ xs, ∀ i, (separateFrom i x).2 = arraysIn x) :
    ∀ i, (separateList i xs).2 = arraysInList xs := by
  induction xs with
  | nil => exact fun _ => rfl
  | cons x xs ih =>
    intro i
    rw [separateList_cons, arraysInList, h x mem_cons_self, ih fun y hy => h y (.tail _ hy)]

/-- **The arrays that are taken out of a part** are its arrays from left to right. -/
theorem Part.separateFrom_arrays (h : Part v) : ∀ i, (separateFrom i v).2 = arraysIn v := by
  induction h with
  | array a => exact fun _ => rfl
  | plain h => exact fun i => by rw [separateFrom_plain h, arraysIn_plain h]
  | text h => exact fun _ => rfl
  | list h ih | tuple h ih | labelled h ih => exact separateList_arrays ih
  | table h ih =>
    intro i
    show (separatePairs i _).2 = arraysInPairs _
    rw [separatePairs_eq, arraysInPairs_eq]
    exact separateList_arrays (forall_mem_map.mpr ih) i

/-! ## 4. Putting arrays back -/

/-- The state in front of the `i`-th array: the arrays before it are used up. -/
def stateAt (xs : List Value) (i : Nat) : Rest := { flat := .list xs, largest := ((i - 1 : Nat) : Int) }

theorem run_bind_of_run {α β : Type} {m : StateT Rest (Except Error) α} {f : α → StateT Rest (Except Error) β}
    {s t : Rest} {a : α} (h : m.run s = .ok (a, t)) : (m >>= f).run s = (f a).run t := by
  rw [StateT.run_bind, h]
  rfl

/-- **Step lemma.**  At a mark its array is put back and used up. -/
theorem takeMarked_mark {a : NdArray} {i : Nat} {xs rest : List Value} (h : xs.drop i = .array a :: rest) :
    (takeMarked (mark i) (.ok ())).run (stateAt xs i) = .ok (.array a, stateAt (xs.set i .null) (i + 1)) := by
  have hget : xs[i]? = some (.array a) := by
    rw [← head?_drop, h]
    rfl
  have hpos : ¬ (i : Int) < 0 := by omega
  have hat : (list xs).at? (.int i) = .ok (.array a) := by
    have hitem : itemAt xs (i : Int) = some (.array a) := by simp [itemAt, hpos, hget]
    simp [at?, int?, members, hitem]
  have hlargest : max ((i - 1 : Nat) : Int) i = ((i + 1 - 1 : Nat) : Int) := by omega
  have hput : putAt xs i .null = xs.set i .null := by simp [putAt, hpos]
  have htake : (takeMarked (mark i) (.ok ())).run (stateAt xs i) =
      .ok (.array a, { flat := .list (putAt xs i .null), largest := max ((i - 1 : Nat) : Int) i }) := by
    simp only [takeMarked, replace_markStart, Number.wholeOf?_toString, StateT.run_bind, StateT.run_get, stateAt, pure_bind, hat]
    rfl
  rw [htake, hput, hlargest]
  rfl

/-- A part is restored from a state in front of its arrays, and leaves the arrays behind them.  Nothing is said of the
arrays that are used up, since no mark leads to them any more. -/
def Restores (v : Value) : Prop :=
  ∀ i xs rest, xs.drop i = arraysIn v ++ rest → ∃ ys,
    (restoreField (.ok ()) (separateFrom i v).1).run (stateAt xs i) =
      .ok (convert v, stateAt ys (i + (arraysIn v).length)) ∧ ys.drop (i + (arraysIn v).length) = rest

/-- **Run lemma.**  The items of a sequence are restored one after the other. -/
theorem restoreList_separateList : ∀ {vs}, (∀ v ∈ vs, Part v) → (∀ v ∈ vs, Restores v) →
    ∀ i xs rest, xs.drop i = arraysInList vs ++ rest → ∃ ys,
      (restoreList (.ok ()) (separateList i vs).1).run (stateAt xs i) =
        .ok (convertList vs, stateAt ys (i + (arraysInList vs).length)) ∧ ys.drop (i + (arraysInList vs).length) = rest
  | [], _, _, i, xs, rest, h => ⟨xs, rfl, h⟩
  | v :: vs, hpart, hv, i, xs, rest, h => by
    rw [arraysInList, append_assoc] at h
    obtain ⟨ys, hys, hdrop⟩ := hv v mem_cons_self i xs _ h
    obtain ⟨zs, hzs, hrest⟩ := restoreList_separateList (fun w hw => hpart w (.tail _ hw))
      (fun w hw => hv w (.tail _ hw)) _ ys rest hdrop
    refine ⟨zs, ?_, ?_⟩
    · rw [separateList_cons, (hpart v mem_cons_self).separateFrom_arrays, restoreList, run_bind_of_run hys,
        run_bind_of_run hzs, arraysInList, length_append, ← Nat.add_assoc]
      rfl
    · rw [arraysInList, length_append, ← Nat.add_assoc, hrest]

/-- A part whose structure is a list of the structures of its items. -/
theorem restores_of_items {vs : List Value} (hsep : ∀ i, (separateFrom i v).1 = .list (separateList i vs).1)
    (harrays : arraysIn v = arraysInList vs) (hconvert : convert v = .list (convertList vs))
    (hpart : ∀ x ∈ vs, Part x) (h : ∀ x ∈ vs, Restores x) : Restores v := by
  intro i xs rest hdrop
  rw [harrays] at hdrop ⊢
  obtain ⟨ys, hys, hrest⟩ := restoreList_separateList hpart h i xs rest hdrop
  refine ⟨ys, ?_, hrest⟩
  rw [hsep, hconvert, restoreField, run_bind_of_run hys]
  rfl

/-- **Every part is restored.** -/
theorem Part.restores (h : Part v) : Restores v := by
  induction h with
  | array a =>
    intro i xs rest h
    have hrest : (xs.set i .null).drop (i + 1) = rest := by
      rw [drop_set_of_lt (Nat.lt_succ_self i), ← tail_drop, h]
      rfl
    refine ⟨xs.set i .null, ?_, hrest⟩
    have hfield : restoreField (.ok ()) (.str (mark i)) = takeMarked (mark i) (.ok ()) := if_pos (isMark_mark i)
    show (restoreField (.ok ()) (.str (mark i))).run (stateAt xs i) = _
    rw [hfield, takeMarked_mark h]
    rfl
  | plain h =>
    intro i xs rest hdrop
    rw [arraysIn_plain h] at hdrop ⊢
    refine ⟨xs, ?_, hdrop⟩
    rw [separateFrom_plain h, restoreField_plain h, convert_plain h]
    rfl
  | @text s h =>
    intro i xs rest hdrop
    refine ⟨xs, ?_, hdrop⟩
    have hfield : restoreField (.ok ()) (.str s) = pure (.str s) := if_neg (by simp [h])
    show (restoreField (.ok ()) (.str s)).run (stateAt xs i) = _
    rw [hfield]
    rfl
  | list h ih | tuple h ih | labelled h ih => exact restores_of_items (fun _ => rfl) rfl rfl h ih
  | table h ih =>
    intro i xs rest hdrop
    rw [arraysIn, arraysInPairs_eq] at hdrop ⊢
    obtain ⟨ys, hys, hrest⟩ := restoreList_separateList (forall_mem_map.mpr h) (forall_mem_map.mpr ih) i xs rest hdrop
    refine ⟨ys, ?_, hrest⟩
    show (restoreField (.ok ()) (.dict (separatePairs i _).1)).run (stateAt xs i) = _
    rw [restoreField, restorePairs_eq, bind_map_left, run_bind_of_run hys, convert, convertPairs_eq]
    rfl

/-! ## 5. Whole batches -/

theorem separateList_of_nil : ∀ {vs},
    (∀ v ∈ vs, arraysIn v = [] → ∀ i, (separateFrom i v).1 = convert v) → arraysInList vs = [] →
      ∀ i, (separateList i vs).1 = convertList vs
  | [], _, _, _ => rfl
  | v :: vs, hv, hnil, i => by
    rw [arraysInList, append_eq_nil_iff] at hnil
    rw [separateList_cons, hv v mem_cons_self hnil.1, separateList_of_nil
      (fun w hw => hv w (.tail _ hw)) hnil.2, convertList]

/-- Without arrays the structure is all there is. -/
theorem Part.separateFrom_of_nil (h : Part v) : arraysIn v = [] → ∀ i, (separateFrom i v).1 = convert v := by
  induction h with
  | array a => exact nofun
  | plain h => exact fun _ i => by rw [separateFrom_plain h, convert_plain h]
  | text h => exact fun _ _ => rfl
  | list h ih | tuple h ih | labelled h ih => exact fun hnil i => congrArg Value.list (separateList_of_nil ih hnil i)
  | table h ih =>
    intro hnil i
    rw [arraysIn, arraysInPairs_eq] at hnil
    show Value.dict (separatePairs i _).1 = _
    rw [separatePairs_eq, separateList_of_nil (forall_mem_map.mpr ih) hnil, convert, convertPairs_eq]

theorem Part.run_structure (h : Part v) : (if (arraysIn v).length = 0 then .ok (separateFrom 0 v).1
      else (restoreField (.ok ()) (separateFrom 0 v).1).run { flat := .list (arraysIn v), largest := 0 } >>= fun r =>
        if r.2.largest + 1 = (arraysIn v).length then .ok r.1 else .error .incomplete) = Except.ok (convert v) := by
  by_cases hnil : (arraysIn v).length = 0
  · rw [if_pos hnil, h.separateFrom_of_nil (length_eq_zero_iff.mp hnil)]
  · obtain ⟨ys, hrun, -⟩ := h.restores 0 (arraysIn v) [] (append_nil _).symm
    have hlast : (((0 + (arraysIn v).length - 1 : Nat) : Int)) + 1 = (arraysIn v).length := by omega
    rw [if_neg hnil]
    refine (congrArg (fun r => r >>= fun r : Value × Rest =>
      if r.2.largest + 1 = (arraysIn v).length then Except.ok r.1 else .error .incomplete) hrun).trans ?_
    exact if_pos hlast

/-- **A batch survives being taken apart.**  What is taken out of a batch are its arrays from left to right, and putting
them back into the structure succeeds and gives the batch with its sequences as lists. -/
theorem restore_separate {b : Value} (h : Part b) (hb : isBatch b = true) :
    (separate b).1 = arraysIn b ∧ restore (.list (separate b).1) (separate b).2 = .ok (convert b) := by
  have hsep : separate b = (arraysIn b, (separateFrom 0 b).1) := by
    rw [← h.separateFrom_arrays 0]
    cases b <;> first | rfl | cases hb
  rw [hsep]
  refine ⟨rfl, ?_⟩
  cases h with
  | array a => rfl
  | plain h => cases (isBatch_of_isPlain h).symm.trans hb
  | text h => cases hb
  | list h' => exact (Part.list h').run_structure
  | tuple h' => exact (Part.tuple h').run_structure
  | labelled h' => exact (Part.labelled h').run_structure
  | table h' => exact (Part.table h').run_structure

/-- Arrays in a tuple and in a list of a table, next to a text, null and an empty tuple. -/
theorem restore_separate_table : let a : Value := .array ⟨⟨[2], [.int 1, .int 2]⟩, .int64⟩
    let c : Value := .array ⟨⟨[1], [.int 3]⟩, .int64⟩
    let batch : Value := .dict [(.str "x", .tuple [a, .str "paddle", .null]), (.int 7, .list [c, .tuple []])]
    Part batch ∧ isBatch batch = true ∧
      separate batch = ([a, c],
        .dict [(.str "x", .list [.str "_paddle_field_0", .str "paddle", .null]),
          (.int 7, .list [.str "_paddle_field_1", .list []])]) ∧
      restore (.list (separate batch).1) (separate batch).2 =
        .ok (.dict [(.str "x", .list [a, .str "paddle", .null]), (.int 7, .list [c, .list []])]) := by
  intro a c batch
  have hx : Part (.tuple [a, .str "paddle", .null]) :=
    .tuple (forall_mem_cons.mpr ⟨.array _, forall_mem_cons.mpr
      ⟨.text (by decide), forall_mem_singleton.mpr (.plain rfl)⟩⟩)
  have hy : Part (.list [c, .tuple []]) :=
    .list (forall_mem_cons.mpr ⟨.array _, forall_mem_singleton.mpr (.tuple (forall_mem_nil _))⟩)
  have hbatch : Part batch := .table (forall_mem_cons.mpr ⟨hx, forall_mem_singleton.mpr hy⟩)
  exact ⟨hbatch, rfl, rfl, (restore_separate hbatch rfl).2⟩

end Batch

end TensorKit
