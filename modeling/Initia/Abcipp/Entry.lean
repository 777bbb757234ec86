import Initia.Lib.OrderedMap

/-!
# Mempool entries, tiers and the clamped rank order

The per-transaction record of the `abcipp` priority mempool (`txEntry`, keyed by
`txKey`), the tier matchers that classify a transaction when it enters the active set,
and `compareEntries`, the order of the priority index: higher clamped priority first,
then older clamped order, then sender and nonce.

Go's fixed-width integers are kept as they are: nonces and gas are `UInt64`;
priorities, sizes, orders and tiers are `Int64` (Go's `int` is 64 bits), so
`scoreByTierPriority` wraps exactly where the Go expression does. Byte strings are lists
of bytes.

Source: `abcipp/mempool.go`, `abcipp/mempool_tier.go`, `abcipp/mempool_event.go`.
-/

namespace Initia.Abcipp

/-- A Go byte slice. -/
abbrev Bytes := List UInt8

/-! ### Keys and entries -/

/-- `txKey`: the sender address and the first signer's sequence. -/
structure TxKey where
  sender : String
  nonce : UInt64
  deriving DecidableEq, Repr

/-- Go compares map keys only for equality; any total order serves the model's maps. -/
instance : Ord TxKey := ⟨compareLex (compareOn TxKey.sender) (compareOn TxKey.nonce)⟩

instance : Std.TransOrd TxKey :=
  inferInstanceAs (Std.TransCmp (compareLex (compareOn TxKey.sender) (compareOn TxKey.nonce)))

instance : Std.LawfulEqOrd TxKey where
  eq_of_compare {a b} h := by
    obtain ⟨hs, hn⟩ := compareLex_eq_eq.mp h
    cases a; cases b
    simp only [compareOn] at hs hn
    rw [Std.LawfulEqOrd.eq_of_compare hs, Std.LawfulEqOrd.eq_of_compare hn]

/-- `txEntry`. The clamped fields are fixed when the entry enters the active set. -/
structure TxEntry (Tx : Type) where
  tx : Tx
  priority : Int64
  size : Int64
  key : TxKey
  sequence : UInt64
  order : Int64
  tier : Int64
  gas : UInt64
  bytes : Bytes
  clampedPriority : Int64
  clampedOrder : Int64

/-- `queuedTier` marks entries of the queued pool. -/
def queuedTier : Int64 := -1

/-- `scoreByTierPriority`: a lower tier gets a `2^50` bonus per level, in `int64`. -/
def scoreByTierPriority (tier priority : Int64) : Int64 :=
  let tierPenalty : Int64 := (1 : Int64) <<< (50 : Int64)
  priority - tier * tierPenalty

/-! ### The priority order -/

section Order

variable {Tx : Type}

/-- `compareEntries`: `.lt` means `left` is served first. -/
def compareEntries (left right : TxEntry Tx) : Ordering :=
  if left.clampedPriority ≠ right.clampedPriority then
    if left.clampedPriority > right.clampedPriority then .lt else .gt
  else if left.clampedOrder ≠ right.clampedOrder then
    if left.clampedOrder < right.clampedOrder then .lt else .gt
  else if left.key.sender = right.key.sender ∧ left.key.nonce ≠ right.key.nonce then
    if left.key.nonce < right.key.nonce then .lt else .gt
  else if left.key.sender ≠ right.key.sender then
    compare left.key.sender right.key.sender
  else if left.key.nonce < right.key.nonce then .lt
  else if left.key.nonce > right.key.nonce then .gt
  else .eq

/-- The priority order is lexicographic: clamped priority descending, then clamped order,
sender and nonce ascending. -/
theorem compareEntries_eq_compareLex :
    @compareEntries Tx =
      compareLex (fun a b => compareOn TxEntry.clampedPriority b a)
        (compareLex (compareOn TxEntry.clampedOrder)
          (compareLex (compareOn fun e => e.key.sender) (compareOn fun e => e.key.nonce))) := by
  funext a b
  simp only [compareEntries, compareLex, compareOn, Int64.compare_eq_ite, UInt64.compare_eq_ite]
  by_cases hs : a.key.sender = b.key.sender
  · -- one sender: once the ranks tie, the nonce decides
    simp only [hs, Std.ReflCmp.compare_self]
    split_ifs <;> simp_all [Ordering.then, Int64.lt_iff_toInt_lt, UInt64.lt_iff_toNat_lt,
      ← Int64.toInt_inj, ← UInt64.toNat_inj]
  · -- two senders: once the ranks tie, the sender order decides
    have hne : compare a.key.sender b.key.sender ≠ .eq := by
      rwa [ne_eq, Std.LawfulEqCmp.compare_eq_iff_eq]
    split_ifs <;> simp_all [Ordering.then, Int64.lt_iff_toInt_lt, UInt64.lt_iff_toNat_lt,
      ← Int64.toInt_inj, ← UInt64.toNat_inj]

/-- The priority index is a tree map under a transitive comparator. -/
instance : Std.TransCmp (@compareEntries Tx) := by
  rw [compareEntries_eq_compareLex]
  infer_instance

/-- `isBetterThan`: the candidate rank `(clampedPriority, clampedOrder)` outranks `entry`. -/
def isBetterThan (entry : TxEntry Tx) (clampedPriority clampedOrder : Int64) : Bool :=
  if clampedPriority ≠ entry.clampedPriority then clampedPriority > entry.clampedPriority
  else clampedOrder < entry.clampedOrder

end Order

/-! ### Contexts and tiers -/

/-- The consensus block limits (`cp.Block`). -/
structure BlockParams where
  maxBytes : Int64
  maxGas : Int64
  deriving DecidableEq, Repr

/-- The fields of `sdk.Context` the mempool reads: the checker's priority, the raw tx
bytes and the consensus block limits (`none` when `cp.Block` is nil). -/
structure SdkContext where
  priority : Int64
  txBytes : Bytes
  consensusBlock : Option BlockParams
  deriving DecidableEq, Repr

/-- `Tier` of the configuration; a nil `Matcher` is `none`. -/
structure Tier (Tx : Type) where
  name : String
  matcher : Option (SdkContext → Tx → Bool)

/-- `tierMatcher`, a canonicalised tier. -/
structure TierMatcher (Tx : Type) where
  name : String
  matcher : Option (SdkContext → Tx → Bool)

section Tiers

variable {Tx : Type}

/-- Go's `unicode.IsSpace`, which `strings.TrimSpace` strips. -/
def isSpace (c : Char) : Bool :=
  c.val ∈ [0x09, 0x0A, 0x0B, 0x0C, 0x0D, 0x20, 0x85, 0xA0, 0x1680, 0x2028, 0x2029, 0x202F,
    0x205F, 0x3000] || (0x2000 ≤ c.val && c.val ≤ 0x200A)

/-- `strings.TrimSpace`. -/
def trimSpace (s : String) : String :=
  String.ofList ((s.toList.dropWhile isSpace).reverse.dropWhile isSpace).reverse

/-- `buildTierMatchers`: drop tiers without a matcher, name anonymous ones `tier-<idx>`
after their configuration index, and append the catch-all `default` tier. -/
def buildTierMatchers (tiers : List (Tier Tx)) : List (TierMatcher Tx) :=
  (tiers.zipIdx.filterMap fun (tier, idx) =>
      tier.matcher.map fun m =>
        let name := trimSpace tier.name
        { name := if name = "" then "tier-" ++ toString idx else name, matcher := some m }) ++
    [{ name := "default", matcher := some fun _ _ => true }]

/-- `selectTier`: the index of the first tier whose matcher is nil or accepts the tx. -/
def selectTier (tiers : List (TierMatcher Tx)) (ctx : SdkContext) (tx : Tx) : Int64 :=
  match tiers.findIdx? (fun tier => tier.matcher.all fun m => m ctx tx) with
  | some idx => Int64.ofNat idx
  | none => Int64.ofNat tiers.length - 1

/-- `tierName`: the configured name of a tier index, or `""` when out of range. -/
def tierName (tiers : List (TierMatcher Tx)) (idx : Int64) : String :=
  if idx < 0 ∨ Int64.ofNat tiers.length ≤ idx then ""
  else (tiers[idx.toNatClampNeg]?.map TierMatcher.name).getD ""

/-- `initTierDistribution`: a zero counter for every named tier. -/
def initTierDistribution (tiers : List (TierMatcher Tx)) : Std.TreeMap String UInt64 compare :=
  tiers.foldl (fun dist tier => if tier.name = "" then dist else dist.insert tier.name 0) ∅

end Tiers

/-! ### Events and query results -/

/-- `cmtmempool.AppMempoolEventType`. -/
inductive AppMempoolEventType
  | txInserted
  | txRemoved
  | txQueued
  deriving DecidableEq, Repr

/-- `cmtmempool.AppMempoolEvent`; its `TxKey` is the hash of `tx` and is left out. -/
structure AppMempoolEvent where
  type : AppMempoolEventType
  tx : Bytes
  deriving DecidableEq, Repr

/-- `TxInfo`, the metadata `Select` reports with each transaction. -/
structure TxInfo where
  sender : String
  sequence : UInt64
  size : Int64
  gasLimit : UInt64
  txBytes : Bytes
  tier : String
  deriving DecidableEq, Repr

/-- `TxInfoEntry`. -/
structure TxInfoEntry (Tx : Type) where
  tx : Tx
  info : TxInfo

end Initia.Abcipp
