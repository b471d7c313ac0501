import TensorKit.Text.Basic
/-!
Word characters, decimal digits and printable characters beyond ASCII, as tables of closed ranges of code points in
increasing order.  A table is written as the lengths of the stretches of code points from 128 on that are by turns
outside and inside the class.  The classes are those of version 14 of the character database: a word character is a
letter or a number of any category, or the underscore, and no blank; a printable character is neither a control, a
surrogate, a private or an unassigned code point, nor a separator other than the plain space.
-/

namespace TensorKit.Text

def inRanges (n : Nat) (rs : Array (Nat × Nat)) : Bool := rs.any fun r => r.1 ≤ n && n ≤ r.2

/-- The numbers that texts write: decimal digits `q` and the `r`-th letter, capitals first, stand for `52 * q + r`. -/
def lengthsOf (texts : List String) : List Nat := texts.flatMap fun s => go 0 s.toList
where
  /-- the numbers, after digits that make `q` -/
  go (q : Nat) : List Char → List Nat
    | [] => []
    | c :: cs => if c.isDigit then go (10 * q + (c.toNat - '0'.toNat)) cs else (52 * q + letter c) :: go 0 cs
  /-- the place of a letter -/
  letter (c : Char) : Nat := if c.isUpper then c.toNat - 'A'.toNat else 26 + c.toNat - 'a'.toNat

/-- The ranges inside a class, from the lengths of the stretches outside and inside it that begin at `n`. -/
def rangesFrom (n : Nat) (lengths : List Nat) : Array (Nat × Nat) := (go n lengths).toArray
where
  /-- the ranges as a list -/
  go (n : Nat) : List Nat → List (Nat × Nat)
    | outside :: inside :: rest => (n + outside, n + outside + inside - 1) :: go (n + outside + inside) rest
    | _ => []

def wordRanges : Array (Nat × Nat) := rangesFrom 128 (lengthsOf [
  "qBHCBBDCBDBXBfB8qEMOFHBBB2ZFBCCEBBGBBDBBBUB1fB2jI3KBmCBGp1TbEEtrVKECB1vBBPCHPCBQBBed1lLBOrJCEBFWEBJBDBXZ",
  "HLFYBGRq1G1CDBSBHKEKBQEICCCWBHBBDEDBQBNCBDEMCGCBIGECCWBHBCBCBCfEBBHKCDQJBDBWBHBCBFDBSBPCEKJBLICCCWBHBCBFD",
  "BeCBDEKBHLBBGDDBEDCBBBCDCDDDMWBVNSIBDBXBQDBaDCBCCEKIHBBEIBDBXBKBFDBfCBCEKBCRJBDBpCBQBFDBKETBGFSDYBJBBCHfK",
  "RwBCMHJKnCBBBFBYBBBKBCJBCFBBJKCEgBfUMIBkbF2LrULGGEEDBDCHDENMBBKGmBBFBCrB6VBECHBBBECpBEChBECHBBBECPB1FBEC",
  "1POUDQQ1iCGD11wCRBaF1XDLHSNTOSONBDP1AjBEBDKGKWKG1lHFCiBBF1SKfnoCFLsEaGLlXJ1BrKGKNB1pvRIDKpeN1EakcKDxCJHrC",
  "DpEBGBCDBF3k1M5SCGCmCGCIBBBBBBBfC1BBHBBDDBHDECGENFDBH2LCCGFLGN1xBEBCKBBDFGBBBBBBEBLCEFFEBB1G13y1I1aW12Ge",
  "21o4VGEDCJBCmBBFBC1EHBQXJHBHBHBHBHBHBHBH1cB9BDZJHFCFE1iGDB1mBEFrB1qDEKgwQgKeIBPgKnP6I126o1M426F1PuC5JDcUv",
  "QfC1cnJC1zC1MFCBBBFYQBDBEBXNGK1AOycKYGDBBCBmKXZdHvcLGFBZBpXDBIEKGXDBDyBBDCCFCBBBYDCLHDMGCGCGJHBHBrBOG2LNK",
  "G214sMXEx162c7CC2CmHMFFBBKBNBFBBBCBCB2Eh6zS1MC1CoM2MFB2fTKHaGaL1lDGCGCGCDjMBaBTBCBPCOi2TMtM1FRC4kdDxQbEkJ",
  "eFmKeCkEIBFq3CCKGkEkEoI1AMLBPBHBCBLBPBHBC1P5zJWKIYGBqBJ1RGCBBsBCDBCXCfCmIJwTBCFhEa1S1EEUCvPEBDBdKJXfBggIB",
  "cGFQ1CKWCbFaXH1c1V1DzNzHqMK5ifBqGC1aoIWLEbSucUXM1BaeBCCBNtgZHKJkPKEBCBIjDBMwOELLBBEULSBZ1gHBBBEBPBKHvRKL",
  "ICCCWBHBCBFDBSBMF3C1BSEFKFDewUCBBIK3KvpEkwUBLKmrNBHK1CbVMEH3ds2M1fMICBCIBCBYPBBBOK1SICnQBBBcBKoHBVBLuTBS",
  "1V5DJBlRBPdFe2IHBCBmVBJKGGBCBgOBHK5yT3hBPVr17m1y2HR3o50k1tP20f77t11L166B10xHfBKG1bBKGeSwQEMKBHBVFT13M1j",
  "2B1XFB1ON1MCBBc118AI23qqJ171rEBHBCB5ftDREI7g44U2DFNDJHK109iU2EZ2f1hB1TBCCBCCCEBMBBBHB1NBECIBHBcBEBFBBDHB",
  "6cCZBZBfBZBfBZBfBZBfBZBICy34Yf9NtKHCKEB6JeSsEK24GHBEBCBPB3pCJw1QHBEK15L1HBDBE1YtBP3mEBbBCBBCBBKBEBBBBGB",
  "EBBBBBBDBCBBCBBBBBBBBBBCBBCEBHBEBEBBBKBRFDBFBR11IN53fK19q821cg79tH4OC110qO143l59j10W28y94z"])

def digitRanges : Array (Nat × Nat) := rangesFrom 128 (lengthsOf [
  "28wK2eK3qK7wK2OK2OK2OK2OK2OK2OK2OK2OK2OK1sK2OK1SK5SK1SK35qKmK5oK2YK3KKGK3aK1iK2eKGK678OK13CKmK3qKWK1iK7q",
  "K409CK27KK41yK15gK2YK1IK2oK5SK6eK2OK7KK1yK1yK8GK1yK14eK4mK1SK377iK1iK2eK533wy45cK8GK31KK91aK"])

def printableRanges : Array (Nat × Nat) := rangesFrom 128 (lengthsOf [
  "hMB13mCGEHBBBUB7hBmCyCDB1DIbEGRWB3kBwC1HC1xO1HCxCPBcCBBLFfJ1WB3FBICCCWBHBBDECJCCCEIBECBFCZCDBGECCWBHBCBCB",
  "CCBBFECCDDBHEBBHRKDBJBDBWBHBCBFCKBDBDCBPECMHHBDBICCCWBHBCBFCJCCCDHDECBFCSKCBGDDBEDCBBBCDCDDDMEFDDBECBGBOV",
  "FNBDBXBQCJBDBEHCBDCBCECKHWBDBXBKBFCJBDBEHCGCBECKBCNNBDBzBDBGEQCaBDBSDYBJBBCHDBEGBBBIGKCDM1GEdlCBBBFBYBBBX",
  "CFBBBGCKCEg1UBkEnBkBPBNl3qBBFBC7NBECHBBBECpBEChBECHBBBECPB1FBEC1PCgDaG1iCGC12QBcD1lHWJYJUMNBDBCM1qCKGKGOB",
  "LG1lHrF1SKfBMEMEBDqCFLsEaGLD1KC1NBdCLGKGOCfx1ZDvB2MI1IDPD1IHrCLIrF10OCGCmCGCIBBBBBBBfC1BBPBOCGBTCDBJRYIvR",
  "CCbBNDhPhP2kE12nZLV34sCgB6lFtBBFBC1EHCOYJHBHBHBHBHBHBHBHB2WiaB1lM4GaMF1LB1iC1zFrB1qB1gMvB563RD1DJ6kU3cI",
  "3vFCBBBFY1HDKG1EI1SIMG2MLeD1aBLEhB1DJOCKC1zYcKGCGCGJHBHB1IE2WCKG214sMXEx162c7CC2CmHMFFaBFBBBCBCB2VQ8dC1C",
  "HBgqGzBTBEEFB2fE3iDGCGCGCDDHBHNCCMBaBTBCBPCOi2TFDEtD1kBNDBvu2adDxPcEkJeFrFeBlEOq3CCKGkEkEoI1ALMBPBHBCBLBP",
  "BHBC1P5zJWKIYGBqBJ1RGCBBsBCDBCXB1UIJwTBCFhDbFB1M1EEUCyBCFIBDBdCDEKHJH1MgnEMJ1CDdCbFaHEMH1c1V1DzNzHuIK5if",
  "BqBDCC1aoIqWamcUXJ1aEkJ1KBFNZHKG1BBSInJ1sBULSBs1NHBBBEBPBLG1HFKGEBICCCWBHBCBFBKCCCDCBGBFHCHDF2j1oBFe1UIK",
  "3K1CCmi1RLKGNT1GGK1CbCPEX3d1I1w1fMICBCIBCBeBCCMJK1SICuCLb1UI1fN1V5DJBtBOKdDgCWBO1VHBCBsDBBCBJIKGGBCBlBCBG",
  "HK5yZ3bBPyN17n1y2HBFL3o50k1vN20f77t11L166B10xHfBKE1dBKGeCGK1SKKBHBVFT13M1n1x1XE1FHR1MFLCO118AI23qqJ171rE",
  "BHBCB5ftDREI7g44U2DFNDJHKCE90YuCXJ2M1I4mKnC1WI2IV1S2yUM1jJZ2f1hB1TBCCBCCCEBMBBBHB1NBECIBHBcBEBFBBDHB6cC",
  "5gC13aPFBP21Mf4RHBRCHBCBF4FtDOCKEC6IfR1GFB24AHBEBCBPB3pCQp1YEKEC15F1Q1Y1J3mEBbBCBBCBBKBEBBBBGBEBBBBBBDBC",
  "BBCBBBBBBBBBBCBBCEBHBEBEBBBKBRFDBFBR1AC5KsE1wMPCPBPBlK3S1EdNsEJHCOG2y18wFQDND2MM1lHMEBPME1EIKGoIeCC1a6cM",
  "OCFDFDHJdDLFGKKGIIHJ2rB1DlK19q821cg79tH4OC110qO143l59j10W28y94z13773R4g"])

/-- Letters, digits and the underscore of ASCII. -/
def isNameChar (c : Char) : Bool := c.isAlphanum || c == '_'

def isWord (c : Char) : Bool :=
  if c.toNat < 128 then isNameChar c else inRanges c.toNat wordRanges && !isBlank c

def isDecimal (c : Char) : Bool :=
  if c.toNat < 128 then c.isDigit else inRanges c.toNat digitRanges

def isPrintable (c : Char) : Bool :=
  if c.toNat < 128 then 32 ≤ c.toNat && c.toNat < 127 else inRanges c.toNat printableRanges

end TensorKit.Text
