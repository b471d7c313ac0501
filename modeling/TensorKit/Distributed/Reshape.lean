import TensorKit.Distributed.Block
import TensorKit.Tensor.Axis
import TensorKit.Value.Arithmetic
import TensorKit.Value.Array
/-!
Tensors from one splitting to another.

The blocks of a tensor, in the order of the processes, are pasted together to the whole; the whole is cut at the bounds
of the new blocks, and every process takes its own piece.  Pasting keeps a list of blocks that do not join yet; a block
that joins none of them is left out, so a list that does not end with one block means that the tensor could not be put
together.
-/

namespace TensorKit.Distributed.Reshape

open Position

/-! ## 1. Causes of failure -/

inductive Error where
  | fault (kind : FailureKind)
  | notMember (process : Int)
  | axisBeyond (axis rank : Nat)
  | ranks (first second : Nat)
  | sizes (axis first second : Nat)
  | merge (entry : Value)
  | mergeParameter
  | slice (entry : Value)
  | tensor (name : String) (inner : String)
  | tensorBy (name other : String) (inner : String)
  | noTensors
  | noPrevious
  | notTable (what class' : String)
  | noAttributes
  | parameters (class' : String)
  | parameterName (class' : String)
  | parameterArrays
  | attributes (class' : String)
  | attributeName (class' : String)
  | entryClass (class' : String)
  | attributeKeys (keys : String)

/-- What a cause says; some texts are only repeated by a larger operation. -/
def Error.text : Error → String
  | fault _ => ""
  | notMember p => s!"{p} is not in list"
  | axisBeyond a r => s!"axis {a} is out of bounds for array of dimension {r}"
  | ranks a b => "all the input arrays must have same number of dimensions, but the array at index 0 has " ++
      s!"{a} dimension(s) and the array at index 1 has {b} dimension(s)"
  | sizes i a b => "all the input array dimensions except for the concatenation axis must match exactly, " ++
      s!"but along dimension {i}, the array at index 0 has size {a} and the array at index 1 has size {b}"
  | merge v => s!"Fail to merge tensor with dist_attr '{v.plain}'."
  | mergeParameter => "Fail to merge parameter"
  | slice v => s!"Fail to slice tensor with dist_attr '{v.plain}'."
  | tensor name inner => s!"Fail to convert tensor '{name}'. " ++ inner
  | tensorBy name other inner => s!"Fail to convert tensor '{name}' by '{other}'. " ++ inner
  | noTensors => "'tensors_dict' is None, the tensors to be converted cannot be None."
  | noPrevious => "'pre_strategy' is None, there are not tensors in pre process."
  | notTable what c => s!"The type of '{what}' should be 'dict', but got '{c}'."
  | noAttributes => "'pre_dist_attr' cannot be None."
  | parameters c => s!"The type of 'dist_param_dict' should be 'dict', but got {c}."
  | parameterName c =>
    s!"The key of 'dist_param_dict' is parameter's name, and its type should be 'str', but got {c}."
  | parameterArrays => "The value of 'dist_param_dict' is parameter's value of all ranks, " ++
      "and its type should be 'list(numpy.ndarray)'."
  | attributes c => s!"The type of 'dist_attr' should be 'dict', but got '{c}'."
  | attributeName c => s!"The type of param name of 'dist_attr' should be 'str', but got '{c}'."
  | entryClass c => s!"The type of distributed attribute should be 'dict', but got '{c}'"
  | attributeKeys keys => "The key of distributed attribute should be " ++
      s!"'['process_shape', 'process_group', 'dims_mapping']', but got {keys}."

def Error.kind : Error → FailureKind
  | fault k => k
  | axisBeyond _ _ => .axis
  | mergeParameter | noAttributes | parameters _ => .assertion
  | notTable _ _ | parameterName _ | parameterArrays | attributes _ | attributeName _ | entryClass _ => .type
  | _ => .value

/-- The wording of the causes that are checks of this library. -/
def Error.message : Error → Option String
  | fault _ | notMember _ | axisBeyond _ _ | ranks _ _ | sizes _ _ _ => none
  | e => some e.text

instance : Faulty Error := { kind := Error.kind, message := Error.message, fault := .fault }

instance : MonadLift (Except Block.Error) (Except Error) := ⟨Except.mapError fun
  | .fault k => .fault k
  | .notMember p => .notMember p⟩

/-- Is a failure one that conversions repeat with the name of the tensor? -/
def Error.isRepeated (e : Error) : Bool := e.kind = .value || e.kind = .axis || e.kind = .encoding

/-! ## 2. Tensors -/

def differing (axis : Nat) : Nat → List Nat → List Nat → Option (Nat × Nat × Nat)
  | i, a :: as, b :: bs => if i ≠ axis ∧ a ≠ b then some (i, a, b) else differing axis (i + 1) as bs
  | _, _, _ => none

variable {α : Type}

def checkPaste (axis : Nat) (a b : Tensor α) : Except Error Unit :=
  if a.rank ≤ axis then .error (.axisBeyond axis a.rank)
  else if a.rank ≠ b.rank then .error (.ranks a.rank b.rank)
  else match differing axis 0 a.shape b.shape with
    | some (i, n, m) => .error (.sizes i n m)
    | none => .ok ()

def paste (axis : Nat) (a b : Tensor α) : Except Error (Tensor α) := do
  checkPaste axis a b
  return Tensor.paste axis a b

def isComplete (complete : List Int) (b : Block) : Bool :=
  b.zipIdx.all fun (s, i) => s.lo == 0 && complete[i]? == some s.hi

/-- Do some blocks with contents consist of the whole tensor alone? -/
def isDone (complete : List Int) : List (α × Block) → Bool
  | [(_, b)] => isComplete complete b
  | _ => false

/-- Add a block with its contents.  Once the tensor is whole nothing is added; a block that joins no other is left
out unless it is the first. -/
def addPiece {α : Type} (paste : Nat → α → α → Except Error α) (complete : List Int) :
    Nat → List (α × Block) → α → Block → Except Error (List (α × Block))
  | n, pieces, a, b =>
    if isDone complete pieces then .ok pieces
    else if pieces.isEmpty then .ok [(a, b)]
    else match n with
      | 0 => .ok pieces
      | n + 1 => do
        match ← Block.joinFirst paste a b pieces with
        | some ((c, d), rest) => addPiece paste complete n rest c d
        | none => return pieces

/-- A splitting: the sizes of a mesh, its processes, and the mesh axis of each tensor axis. -/
structure Splitting where
  mapping : List Int
  shape : List Int
  group : List Int

def addPieces {α : Type} (paste : Nat → α → α → Except Error α) (complete : List Int) (s : Splitting)
    (tensors : List α) : List Int → List Block → List (α × Block) → Except Error (List (α × Block))
  | [], _, pieces => .ok pieces
  | p :: ps, seen, pieces => do
    let b ← Block.ofProcess p complete s.mapping s.shape s.group
    if seen.contains b then addPieces paste complete s tensors ps seen pieces
    else
      let t ← pick tensors ((s.group.idxOf p : Nat) : Int)
      let pieces ← addPiece paste complete pieces.length pieces t b
      addPieces paste complete s tensors ps (seen ++ [b]) pieces

def assemble (paste : Nat → α → α → Except Error α) (shapeOf : α → List Nat) (s : Splitting)
    (tensors : List α) : Except Error (List (α × Block)) := do
  let first ← pick tensors 0
  let complete ← Block.completeShape ((shapeOf first).map Int.ofNat) s.shape s.mapping
  addPieces paste complete s tensors s.group [] []

def pieces (s : Splitting) (t : Tensor α) : Except Error (List (Tensor α)) := do
  let cuts ← Block.cuts (t.shape.map Int.ofNat) s.mapping s.shape s.group
  if cuts.isEmpty then .error (.fault .index)
  return t.cutAll 0 (cuts.map fun cs => cs.map Int.toNat)

def pieceNumber (s : Splitting) (rank : Int) (t : Tensor α) : Except Error Int := do
  return ← Block.number rank (t.shape.map Int.ofNat) s.mapping s.shape s.group

/-- The piece of a process; none if its number is not that of a piece. -/
def slice? (s : Splitting) (rank : Int) (t : Tensor α) : Except Error (Option (Tensor α)) := do
  let all ← pieces s t
  let n ← pieceNumber s rank t
  return if 0 ≤ n then all[n.toNat]? else none

/-- Does a mapping split a tensor?  An empty one counts as if it did. -/
def splits (mapping : List Int) : Bool := (Block.distinct mapping).length > 1 || !mapping.contains Mapping.replicated

/-! ## 3. Arrays -/

/-- Paste two arrays along an axis, in the larger element type. -/
def pasteArrays (axis : Nat) (a b : NdArray) : Except Error NdArray := do
  checkPaste axis a.toTensor b.toTensor
  let t := NdArray.commonType [a, b]
  return ⟨Tensor.paste axis (a.as t).toTensor (b.as t).toTensor, t⟩

def wholes (v : Value) : Fallible (List Int) := do
  (← v.members).mapM fun x => demand .type x.int?

def splittingOf (entry : Value) : Fallible Splitting := do
  let mapping ← entry.need "dims_mapping"
  let shape ← entry.need "process_shape"
  let group ← entry.need "process_group"
  return ⟨← wholes mapping, ← wholes shape, ← wholes group⟩

/-- Put blocks together by a table that describes their splitting. -/
def mergeArrays (tensors : List NdArray) (entry : Value) : Except Error NdArray := do
  match ← assemble pasteArrays (fun a => a.shape) (← splittingOf entry) tensors with
  | [(t, _)] => return t
  | _ => .error (.merge entry)

variable (rank : Int)

/-- Cut out the block of a process by a table that describes the splitting. -/
def sliceArray (a : NdArray) (entry : Value) : Except Error NdArray := do
  match ← slice? (← splittingOf entry) rank a.toTensor with
  | some t => return ⟨t, a.type⟩
  | none => .error (.slice entry)

def arraysOf? : Value → Option (List NdArray)
  | .list xs => xs.mapM fun
    | .array a => some a
    | _ => none
  | _ => none

/-- The part of a process that is at its place in the group. -/
def ownOf (tensors : List NdArray) (entry : Value) : Except Error NdArray := do
  let group ← wholes (← entry.need "process_group")
  let some i := group.idxOf? rank | .error (.notMember rank)
  return ← pick tensors i

/-- The block of a process under the current splitting, from the blocks of the previous one. -/
def convertOne (tensors previous current : Value) : Except Error NdArray := do
  let some arrays := arraysOf? tensors | .error (.fault .assertion)
  if Value.same previous current then ownOf rank arrays current
  else
    let before ← wholes (← previous.need "dims_mapping")
    let now ← wholes (← current.need "dims_mapping")
    let whole ← if splits before then mergeArrays arrays previous else do pure (← pick arrays 0)
    if splits now then sliceArray rank whole current else return whole

/-! ## 4. All tensors of a model -/

def naming (wrap : String → Error) : Except Error α → Except Error α
  | .error e => .error (if e.isRepeated then wrap e.text else e)
  | r => r

def pairsOf (what : String) : Value → Except Error Pairs
  | .dict ps => .ok ps
  | v => .error (.notTable what v.classText)

def convertShared (rank : Int) (tensors previous : Pairs) :
    Pairs → Except Error (List (Value × NdArray))
  | [] => .ok []
  | (name, now) :: rest => do
    match Value.lookup name previous, Value.lookup name tensors with
    | some before, some ts =>
      let a ← naming (.tensor name.plain) (convertOne rank ts before now)
      return (name, a) :: (← convertShared rank tensors previous rest)
    | _, _ => convertShared rank tensors previous rest

/-- The part of a name before its last underscore. -/
def stem? (name : String) : Option String :=
  match name.toList.reverse.dropWhile (· != '_') with
  | [] => none
  | _ :: stem => some (.ofList stem.reverse)

/-- The first of some tensors whose name holds the start of a name. -/
def partner? (left : Pairs) (name : Value) : Option (Value × Value) := do
  let stem ← stem? name.plain
  left.find? fun p => Text.contains stem p.1.plain

/-- Convert tensors that only the current strategy has from one whose name holds the start of theirs. -/
def convertByStem (rank : Int) (tensors left : Pairs) :
    Pairs → Except Error (List (Value × NdArray))
  | [] => .ok []
  | (name, now) :: rest => do
    match partner? left name with
    | none => convertByStem rank tensors left rest
    | some (other, before) =>
      let some ts := Value.lookup other tensors | .error (.fault .key)
      let a ← naming (.tensorBy name.plain other.plain) (convertOne rank ts before now)
      return (name, a) :: (← convertByStem rank tensors left rest)

def without (table ps : Pairs) : Pairs :=
  ps.filter fun p => (Value.lookup p.1 table).isNone

/-- Convert the tensors of a model from the previous to the current strategy.  If it is not strict, tensors that are
only in the current one are looked for by their names. -/
def convert (tensors previous current : Value) (strict : Bool) :
    Except Error (List (Value × NdArray)) := do
  if !tensors.truthy then .error .noTensors
  let ts ← pairsOf "tensors_dict" tensors
  if !previous.truthy then .error .noPrevious
  let before ← pairsOf "pre_strategy" previous
  let now ← pairsOf "cur_strategy" current
  let shared ← convertShared rank ts before now
  if strict then return shared
  return shared ++ (← convertByStem rank ts (without now before) (without before now))

/-! ## 5. Parameters, in place -/

def attributeNames : List String := ["process_shape", "process_group", "dims_mapping"]

def checkAttributes (v : Value) : Except Error Value := do
  if !v.truthy then return v
  let .dict ps := v | .error (.attributes v.classText)
  for (name, entry) in ps do
    let .str _ := name | .error (.attributeName name.classText)
    let .dict qs := entry | .error (.entryClass entry.classText)
    if !Value.sameList (qs.map Prod.fst) (attributeNames.map .str) then
      .error (.attributeKeys s!"dict_keys({(Value.list (qs.map Prod.fst)).shown})")
  return v

def mergeParameter (arrays : List NdArray) (entry : Value) : Except Error NdArray := do
  match ← assemble pasteArrays (fun a => a.shape) (← splittingOf entry) arrays with
  | [] => .error (.fault .index)
  | [(t, _)] => return t
  | _ => .error .mergeParameter

/-- Cut out the block of a process; numbers below zero count from the end. -/
def sliceParameter (a : NdArray) (entry : Value) : Except Error NdArray := do
  let s ← splittingOf entry
  let all ← pieces s a.toTensor
  return ⟨← pick all (← pieceNumber s rank a.toTensor), a.type⟩

def convertParameter (tensors : Value) (previous current : Value) : Except Error NdArray := do
  let arrays := (arraysOf? tensors).getD []
  if Value.same previous current then ownOf rank arrays current
  else
    let before ← wholes (← previous.need "dims_mapping")
    let now ← wholes (← current.need "dims_mapping")
    let whole ← if splits before then mergeParameter arrays previous else do pure (← pick arrays 0)
    if splits now then sliceParameter rank whole current else return whole

def convertEach (rank : Int) (previous : Pairs) (params : Pairs) :
    Pairs → Except Error Pairs
  | [] => .ok params
  | (name, now) :: rest => match Value.lookup name previous with
    | none => convertEach rank previous params rest
    | some before => do
      let a ← match Value.lookup name params with
        | some ts => convertParameter rank ts before now
        | none =>
          if Value.same before now then do
            let group ← wholes (← now.need "process_group")
            if group.contains rank then .error (.fault .key) else .error (.notMember rank)
          else .error (.fault .key)
      convertEach rank previous (Value.store name (.array a) params) rest

def removeEach (params : Pairs) : Pairs → Except Error Pairs
  | [] => .ok params
  | (name, _) :: rest =>
    if (Value.lookup name params).isSome then
      removeEach (params.filter fun p => !Value.same p.1 name) rest
    else .error (.fault .key)

/-- Convert parameters from the previous to the current attributes.  Parameters without current attributes are
left out. -/
def convertParameters (params previous current : Value) : Except Error Pairs := do
  if !(← checkAttributes previous).truthy then .error .noAttributes
  let .dict before := previous | .error (.fault .type)
  let .dict ps := params | .error (.parameters params.classText)
  for (name, v) in ps do
    let .str _ := name | .error (.parameterName name.classText)
    if (arraysOf? v).isNone then .error .parameterArrays
  match current with
  | .null => return []
  | .dict now =>
    let ps ← convertEach rank before ps now
    removeEach ps (without now before)
  | _ => .error (.fault .attribute)

end TensorKit.Distributed.Reshape
