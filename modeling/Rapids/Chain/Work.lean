import Rapids.Chain.Connect
import Rapids.Lib.Binary64

/-!
# Rapids.Chain.Work

**Targets and required work** (`pow.cpp`, `arith_uint256.cpp` and `CheckWork` in
`main.cpp`).

A target is a 256-bit number, kept as a `Nat` below `2 ^ 256`, and its compact
form `nBits` is an exponent byte and 23 bits of mantissa with a sign. The index
entry of a block is seen here as its **branch**: the headers from the block down
to the genesis block, so that its height is the number of headers behind it.

Two tests of a block's work stand side by side. `checkProofOfWork` compares the
hash with the target; `checkWork`, the one made when a block arrives, looks at
`nBits` only, and for proof-of-work blocks only roughly, in double precision.
-/

namespace Rapids.Chain

open Rapids.Lib

/-! ### Compact targets -/

/-- `SetCompact`: the number, and the flags for a negative one and an overflow. -/
def setCompact (nCompact : Nat) : Nat × Bool × Bool :=
  let nSize := nCompact / 2 ^ 24 % 256
  let mantissa := nCompact % 2 ^ 23
  let nWord := if nSize ≤ 3 then mantissa / 2 ^ (8 * (3 - nSize)) else mantissa
  let value := if nSize ≤ 3 then nWord else nWord * 2 ^ (8 * (nSize - 3)) % 2 ^ 256
  (value, nWord ≠ 0 && nCompact / 2 ^ 23 % 2 = 1,
    nWord ≠ 0 && (34 < nSize || 0xff < nWord && 33 < nSize || 0xffff < nWord && 32 < nSize))

/-- `bits`: the position of the highest bit set, from one. -/
def numBits (v : Nat) : Nat := if v = 0 then 0 else v.log2 + 1

/-- `GetCompact` -/
def getCompact (v : Nat) : Nat :=
  let nSize := (numBits v + 7) / 8
  let nCompact := if nSize ≤ 3 then v * 2 ^ (8 * (3 - nSize)) else v / 2 ^ (8 * (nSize - 3)) % 2 ^ 32
  if nCompact / 2 ^ 23 % 2 = 1 then nCompact / 2 ^ 8 + (nSize + 1) * 2 ^ 24 else nCompact + nSize * 2 ^ 24

/-! ### Parameters -/

/-- The parameters of a network that are about work. -/
structure WorkParams where
  hashGenesisBlock : Nat
  powLimit : Nat
  posLimit : Nat
  fPowAllowMinDifficultyBlocks : Bool
  nTargetTimespan : Int
  nTargetSpacing : Int
  nPosTargetSpacing : Int
  nRpdProtocolHeight : Nat
  regTest : Bool

/-- `CMainParams` -/
def mainWork : WorkParams where
  hashGenesisBlock := mainParams.hashGenesisBlock
  powLimit := 2 ^ 236 - 1
  posLimit := 2 ^ 236 - 1
  fPowAllowMinDifficultyBlocks := false
  nTargetTimespan := 30 * 60
  nTargetSpacing := 2 * 60
  nPosTargetSpacing := 6
  nRpdProtocolHeight := 2147483647
  regTest := false

/-! ### Index entries -/

/-- The header of an index entry. -/
structure IndexHeader where
  hash : Nat
  nTime : UInt32
  nBits : UInt32
  fProofOfStake : Bool
  deriving DecidableEq

/-- An index entry and what is below it, the entry first. -/
abbrev Branch := List IndexHeader

variable (W : WorkParams) (c : Branch)

/-- `nHeight` -/
def Branch.height : Nat := c.length - 1

/-- `GetLastBlockIndex` -/
def getLastBlockIndex (fProofOfStake : Bool) : Branch → Branch
  | h :: p :: rest =>
    if h.fProofOfStake ≠ fProofOfStake then getLastBlockIndex fProofOfStake (p :: rest)
    else h :: p :: rest
  | c => c

/-! ### The work required -/

/-- The running values of the loop of `Lwma3CalculateNextWorkRequired`. -/
structure Lwma where
  previousTimestamp : Int
  j : Int
  t : Int
  sumTarget : Nat

/-- One round of that loop. -/
def lwmaStep (s : Lwma) (h : IndexHeader) : Lwma :=
  let nTime : Int := h.nTime.toNat
  let thisTimestamp := if s.previousTimestamp < nTime then nTime else s.previousTimestamp + 1
  let solvetime := min (6 * W.nPosTargetSpacing) (thisTimestamp - s.previousTimestamp)
  { previousTimestamp := thisTimestamp
    j := s.j + 1
    t := s.t + solvetime * (s.j + 1)
    sumTarget := (s.sumTarget + (setCompact h.nBits.toNat).1 / (288 * W.nPosTargetSpacing).toNat) % 2 ^ 256 }

/-- `Lwma3CalculateNextWorkRequired`, over the last eight blocks. -/
def lwma3CalculateNextWorkRequired (fProofOfStake : Bool) : Nat :=
  let posLimit := if fProofOfStake then W.posLimit else W.powLimit
  match c.drop 8 with
  | [] => getCompact posLimit
  | before :: _ =>
    let s := (c.take 8).reverse.foldl (lwmaStep W) ⟨before.nTime.toNat, 0, 0, 0⟩
    let nextTarget := (s.t % 2 ^ 64).toNat * s.sumTarget % 2 ^ 256
    getCompact (if posLimit < nextTarget then posLimit else nextTarget)

/-- `CalculateNextWorkRequired` -/
def calculateNextWorkRequired (last : IndexHeader) (nFirstBlockTime : Int) : Nat :=
  if !last.fProofOfStake && W.fPowAllowMinDifficultyBlocks then last.nBits.toNat
  else
    let spacing := (last.nTime.toNat : Int) - nFirstBlockTime
    let spacing := if spacing < 0 then W.nTargetSpacing else spacing
    let nActualSpacing := if W.nTargetSpacing * 10 < spacing then W.nTargetSpacing * 10 else spacing
    let limit := if last.fProofOfStake then W.posLimit else W.powLimit
    let nInterval := W.nTargetTimespan.tdiv W.nTargetSpacing
    let factor := ((nInterval - 1) * W.nTargetSpacing + nActualSpacing + nActualSpacing) % 2 ^ 32
    let bnNew := (setCompact last.nBits.toNat).1 * factor.toNat % 2 ^ 256 /
      ((nInterval + 1) * W.nTargetSpacing).toNat
    getCompact (if bnNew = 0 || limit < bnNew then limit else bnNew)

/-- `GetNextWorkRequired` -/
def getNextWorkRequired : Nat :=
  let fProofOfStake := (c.head?.map IndexHeader.fProofOfStake).getD false
  let nTargetLimit := getCompact (if fProofOfStake then W.posLimit else W.powLimit)
  if W.nRpdProtocolHeight ≤ c.height + 1 then lwma3CalculateNextWorkRequired W c fProofOfStake
  else
    match getLastBlockIndex fProofOfStake c with
    | prev :: p :: rest =>
      match getLastBlockIndex fProofOfStake (p :: rest) with
      | prevPrev :: _ :: _ => calculateNextWorkRequired W prev prevPrev.nTime.toNat
      | _ => nTargetLimit
    | _ => nTargetLimit

/-! ### The two tests -/

/-- `CheckProofOfWork` -/
def checkProofOfWork (hash : Nat) (nBits : UInt32) : Bool :=
  let (bnTarget, fNegative, fOverflow) := setCompact nBits.toNat
  W.regTest ||
    !fNegative && bnTarget ≠ 0 && !fOverflow && bnTarget ≤ W.powLimit && hash ≤ bnTarget

/-- Divide by 256 so many times, rounding each time. -/
def scaleDown : Nat → ℚ → ℚ
  | 0, d => d
  | n + 1, d => scaleDown n (toBinary64Gradual (d / 256))

/-- `ConvertBitsToDouble`; a mantissa of zero gives infinity, which is `none`. -/
def convertBitsToDouble (nBits : Nat) : Option ℚ :=
  let nShift := nBits / 2 ^ 24 % 256
  if nBits % 2 ^ 24 = 0 then none
  else
    let dDiff := toBinary64 (65535 / (nBits % 2 ^ 24 : Nat))
    some (if nShift ≤ 29 then dDiff * 256 ^ (29 - nShift) else scaleDown (nShift - 29) dDiff)

/-- Is `|n1 - n2|` more than half of `n1`? No comparison with infinity or with
what is not a number holds, apart from a finite number being less. -/
def differsByHalf : Option ℚ → Option ℚ → Bool
  | none, _ => false
  | some _, none => true
  | some n1, some n2 => toBinary64Gradual (n1 / 2) < toBinary64Gradual |n1 - n2|

/-- `CheckWork`, for a block over a branch. -/
def checkWork (nBits : UInt32) (fProofOfStake : Bool) : Bool :=
  let nBitsRequired := getNextWorkRequired W c
  if !W.regTest && !fProofOfStake then
    !differsByHalf (convertBitsToDouble nBits.toNat) (convertBitsToDouble nBitsRequired)
  else nBits.toNat = nBitsRequired

end Rapids.Chain
