/-!
Upper and lower case.

Within ASCII the core functions are used.  Beyond it the mappings are tables: ranges of letters that are
all moved by the same distance, and the letters that become several characters.  A capitalised word has
its first letter in title case, which differs from upper case for a few letters, and the rest in lower
case.
-/

namespace TensorKit.Text

/-- The letters `first, first + step, …, last`, each moved by `shift` code points. -/
structure CaseRange where
  first : Nat
  last : Nat
  step : Nat
  shift : Int

def CaseRange.back (r : CaseRange) : CaseRange :=
  ⟨((r.first : Int) + r.shift).toNat, ((r.last : Int) + r.shift).toNat, r.step, -r.shift⟩

def CaseRange.moves (r : CaseRange) : List (Nat × List Nat) :=
  (List.range ((r.last - r.first) / r.step + 1)).map fun i =>
    (r.first + r.step * i, [((r.first + r.step * i : Nat) + r.shift).toNat])

def codePairs (s : String) : List (Nat × Nat) := go s.toList
where
  /-- the pairs of a list of characters -/
  go : List Char → List (Nat × Nat)
    | a :: b :: cs => (a.toNat, b.toNat) :: go cs
    | _ => []

/-- Ranges that are moved by the same distance, written as their first and last letters. -/
def moved (step : Nat) (shift : Int) (ends : String) : List CaseRange :=
  (codePairs ends).map fun p => ⟨p.1, p.2, step, shift⟩

/-- Single letters, each followed by what it becomes. -/
def letters (pairs : String) : List CaseRange := (codePairs pairs).map fun p => ⟨p.1, p.1, 1, (p.2 : Int) - p.1⟩

/-- Small letters that are moved to their capital letters, from which the way leads back. -/
def letterPairs : List CaseRange :=
  moved 1 (-32) "àöøþαρσϋаяａｚ𑣀𑣟𖹠𖹿" ++
  moved 2 (-1) "āįĳķĺňŋŷźžƃƅơƥƴƶǎǜǟǯǹȟȣȳɇɏͱͳϙϯѡҁҋҿӂӎӑԯḁẕạỿⱨⱬⲁⳣⳬⳮꙁꙭꚁꚛꜣꜯꜳꝯꝺꝼꝿꞇꞑꞓꞗꞩꞵꟃꟈꟊꟗꟙ" ++ moved 1 (-48) "աֆⰰⱟ" ++
  moved 1 3008 "აჺჽჿ" ++ moved 1 8 "ἀἇἐἕἠἧἰἷὀὅὠὧᾰᾱῐῑῠῡ" ++ moved 1 (-40) "𐐨𐑏𐓘𐓻" ++ moved 2 (-39) "𐖗𐖻𐖘𐖠𐖤𐖰𐖴𐖸" ++
  letters "ÿŸƀɃƈƇƌƋƒƑƕǶƙƘƚȽƞȠƨƧƭƬưƯƹƸƽƼƿǷǆǄǉǇǌǊǝƎǳǱǵǴȼȻɂɁɐⱯɑⱭɒⱰɓƁɔƆəƏɛƐɜꞫɠƓɡꞬɣƔɥꞍɦꞪɨƗɩƖɪꞮɫⱢɬꞭɯƜɱⱮɲƝɵƟɽⱤʀƦʂꟅʃƩʇꞱ" ++
  letters "ʈƮʉɄʌɅʒƷʝꞲʞꞰͷͶάΆόΌϗϏϲϹϳͿϸϷϻϺӏӀᵹꝽᵽⱣᶎꟆῥῬⅎℲↄↃⱡⱠⱥȺⱦȾⱳⱲⱶⱵⳳⳲⴧჇⴭჍꞌꞋꞔꟄꟑꟐꟶꟵꭓꞳ𐖼𐖕" ++
  [⟨891, 893, 1, 130⟩, ⟨575, 576, 1, 10815⟩, ⟨598, 599, 1, -205⟩, ⟨650, 651, 1, -217⟩, ⟨941, 943, 1, -37⟩,
  ⟨68800, 68850, 1, -64⟩, ⟨973, 974, 1, -63⟩, ⟨5112, 5117, 1, -8⟩, ⟨1104, 1119, 1, -80⟩, ⟨8017, 8023, 2, 8⟩,
  ⟨8048, 8049, 1, 74⟩, ⟨8050, 8053, 1, 86⟩, ⟨8054, 8055, 1, 100⟩, ⟨8056, 8057, 1, 128⟩, ⟨8058, 8059, 1, 112⟩,
  ⟨8060, 8061, 1, 126⟩, ⟨8560, 8575, 1, -16⟩, ⟨9424, 9449, 1, -26⟩, ⟨11520, 11557, 1, -7264⟩,
  ⟨43888, 43967, 1, -38864⟩, ⟨125218, 125251, 1, -34⟩]

def upperRanges : Array CaseRange := .mk <| letterPairs ++
  letters "µΜıIſSǅǄǈǇǋǊǲǱςΣϐΒϑΘϕΦϖΠϰΚϱΡϵΕᲀВᲁДᲂОᲅТᲆЪᲇѢᲈꙊẛṠ" ++
  [⟨7299, 7300, 1, -6242⟩, ⟨837, 837, 1, 84⟩, ⟨8126, 8126, 1, -7205⟩]

def lowerRanges : Array CaseRange := .mk <| letterPairs.map CaseRange.back ++
  moved 1 (-8) "ᾈᾏᾘᾟᾨᾯ" ++ letters "ǅǆǈǉǋǌǲǳϴθẞßᾼᾳῌῃῼῳ" ++
  [⟨8486, 8486, 1, -7517⟩, ⟨8490, 8490, 1, -8383⟩, ⟨8491, 8491, 1, -8262⟩]

/-- Eight letters from `first` on that become the letters from `letter` on, each followed by a capital iota. -/
def withIota (first letter : Nat) : List (Nat × List Nat) := (List.range 8).map fun i => (first + i, [letter + i, 921])

/-- Letters, each written with what it becomes after it. -/
def spelled (texts : List String) : List (Nat × List Nat) := texts.filterMap fun s =>
  match s.toList with
  | c :: cs => some (c.toNat, cs.map Char.toNat)
  | [] => none

/-- Letters whose upper case is several letters. -/
def upperMany : Array (Nat × List Nat) := .mk <|
  withIota 8064 7944 ++ withIota 8072 7944 ++ withIota 8080 7976 ++ withIota 8088 7976 ++ withIota 8096 8040 ++
  withIota 8104 8040 ++ [
  (912, [921, 776, 769]), (944, [933, 776, 769]), (8146, [921, 776, 768]), (8147, [921, 776, 769]),
  (8151, [921, 776, 834]), (8162, [933, 776, 768]), (8163, [933, 776, 769]), (8167, [933, 776, 834])] ++ spelled [
  "ßSS", "ŉʼN", "ǰJ̌", "ևԵՒ", "ẖH̱", "ẗT̈", "ẘW̊", "ẙY̊", "ẚAʾ", "ὐΥ̓", "ὒΥ̓̀", "ὔΥ̓́", "ὖΥ̓͂", "ᾲᾺΙ", "ᾳΑΙ", "ᾴΆΙ",
  "ᾶΑ͂", "ᾷΑ͂Ι", "ᾼΑΙ", "ῂῊΙ", "ῃΗΙ", "ῄΉΙ", "ῆΗ͂", "ῇΗ͂Ι", "ῌΗΙ", "ῖΙ͂", "ῤΡ̓", "ῦΥ͂", "ῲῺΙ", "ῳΩΙ", "ῴΏΙ", "ῶΩ͂",
  "ῷΩ͂Ι", "ῼΩΙ", "ﬀFF", "ﬁFI", "ﬂFL", "ﬃFFI", "ﬄFFL", "ﬅST", "ﬆST", "ﬓՄՆ", "ﬔՄԵ", "ﬕՄԻ", "ﬖՎՆ", "ﬗՄԽ"]

/-- Letters whose title case is not their upper case. -/
def titleOther : Array (Nat × List Nat) := .mk <| List.flatMap CaseRange.moves (
  moved 1 0 "აჺჽჿᾈᾏᾘᾟᾨᾯ" ++ moved 1 8 "ᾀᾇᾐᾗᾠᾧ" ++ letters "ǄǅǅǅǆǅǇǈǈǈǉǈǊǋǋǋǌǋǱǲǲǲǳǲᾳᾼᾼᾼῃῌῌῌῳῼῼῼ") ++ [
  (8119, [913, 834, 837]), (8135, [919, 834, 837]), (8183, [937, 834, 837])] ++ spelled [
  "ßSs", "ևԵւ", "ᾲᾺͅ", "ᾴΆͅ", "ῂῊͅ", "ῄΉͅ", "ῲῺͅ", "ῴΏͅ", "ﬀFf", "ﬁFi", "ﬂFl", "ﬃFfi", "ﬄFfl", "ﬅSt", "ﬆSt", "ﬓՄն",
  "ﬔՄե", "ﬕՄի", "ﬖՎն", "ﬗՄխ"]

/-- The code point of a letter after the mapping of a table of ranges. -/
def caseShift (rs : Array CaseRange) (n : Nat) : Nat :=
  match rs.find? fun r => r.first ≤ n && n ≤ r.last && (n - r.first) % r.step == 0 with
  | some r => ((n : Int) + r.shift).toNat
  | none => n

def upperChar (c : Char) : List Char :=
  if c.toNat < 128 then [c.toUpper]
  else match upperMany.find? fun p => p.1 == c.toNat with
    | some p => p.2.map Char.ofNat
    | none => [.ofNat (caseShift upperRanges c.toNat)]

def lowerChar (c : Char) : List Char :=
  if c.toNat < 128 then [c.toLower]
  else if c.toNat == 0x130 then [.ofNat 0x69, .ofNat 0x307]
  else [.ofNat (caseShift lowerRanges c.toNat)]

def titleChar (c : Char) : List Char :=
  match titleOther.find? fun p => p.1 == c.toNat with
  | some p => p.2.map Char.ofNat
  | none => upperChar c

def upper (s : String) : String := .ofList (s.toList.flatMap upperChar)

def lower (s : String) : String := .ofList (s.toList.flatMap lowerChar)

/-- A text with its first letter in title case and the others in lower case. -/
def capitalize (s : String) : String :=
  match s.toList with
  | [] => ""
  | c :: cs => .ofList (titleChar c ++ cs.flatMap lowerChar)

end TensorKit.Text
