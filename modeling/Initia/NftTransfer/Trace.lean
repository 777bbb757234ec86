import Mathlib

/-!
# Class traces of the ICS-721 transfer module

A class id that crossed IBC channels carries its route as a prefix
`port/channel/.../port/channel/baseClassId`. `parseClassTrace` splits such a string into a
`ClassTrace`, reading pairs from the front for as long as the second element of a pair is a
channel identifier by the host's check (`IbcHost`: the ibc-go identifier checks the module calls,
taken as a parameter); `getFullClassIdPath` prints a trace back, and
`validatePrefixedClassId` is the check a packet's class id passes before it is parsed.

Strings are split and joined through their character lists, the way `strings.Split` and
`strings.Join` act on a one-character separator, so that `List.intercalate_splitOn` gives the
round trip of the split itself. Parsing then round-trips exactly when the route leaves a base
class id behind (`getFullClassIdPath_parseClassTrace`): a class id made only of
port/channel pairs passes validation, loses its last pair to the route, and prints back with a
trailing separator.
-/

namespace Initia.NftTransfer

/-- `strings.Split` at a one-character separator. -/
def splitOn (sep : Char) (s : String) : List String :=
  (s.toList.splitOn sep).map String.ofList

/-- `strings.Join` with a one-character separator. -/
def joinWith (sep : Char) (parts : List String) : String :=
  String.intercalate (String.singleton sep) parts

/-- `unicode.IsSpace`: the Latin-1 spaces and the other white-space code points. -/
def isSpace (c : Char) : Bool :=
  let n := c.toNat
  if n ≤ 0xFF then n = 0x09 || n = 0x0A || n = 0x0B || n = 0x0C || n = 0x0D || n = 0x20 ||
    n = 0x85 || n = 0xA0
  else n = 0x1680 || (0x2000 ≤ n && n ≤ 0x200A) || n = 0x2028 || n = 0x2029 || n = 0x202F ||
    n = 0x205F || n = 0x3000

/-- `strings.TrimSpace(s) == ""`. -/
def isBlank (s : String) : Bool :=
  s.toList.all isSpace

/-- An error wrapped with a message, printed as Go's wrapped errors print. -/
def wrap (msg cause : String) : String :=
  msg ++ ": " ++ cause

theorem toList_joinWith (sep : Char) (parts : List String) :
    (joinWith sep parts).toList = [sep].intercalate (parts.map String.toList) := by
  simp [joinWith, String.toList_intercalate]

/-- Joining the pieces of a split gives the string back. -/
theorem joinWith_splitOn (sep : Char) (s : String) : joinWith sep (splitOn sep s) = s := by
  rw [← String.toList_inj, toList_joinWith, splitOn, List.map_map]
  simp only [Function.comp_def, String.toList_ofList, List.map_id']
  exact List.intercalate_splitOn sep

/-! ### Identifiers -/

/-- The identifier checks of ibc-go's `host` package that the module calls: `IsValidChannelID`,
`PortIdentifierValidator` and `ChannelIdentifierValidator`. They live outside this repository,
so the model takes them as given; a result that needs a check's answer on an identifier states
it as a hypothesis. -/
structure IbcHost where
  isValidChannelID : String → Bool
  portIdentifierValidator : String → Except String Unit
  channelIdentifierValidator : String → Except String Unit

variable (host : IbcHost)

/-- The loop of `validateTraceIdentifiers` over the pairs, from position `i`. -/
def validateIdentifierPairs (i : ℕ) : List String → Except String Unit
  | port :: channel :: rest => do
    (host.portIdentifierValidator port).mapError
      (wrap ("invalid port ID at position " ++ toString i))
    (host.channelIdentifierValidator channel).mapError
      (wrap ("invalid channel ID at position " ++ toString i))
    validateIdentifierPairs (i + 2) rest
  | _ => .ok ()

/-- `validateTraceIdentifiers`: a non-empty, even list of port and channel identifiers. -/
def validateTraceIdentifiers (identifiers : List String) : Except String Unit :=
  if identifiers.length = 0 || identifiers.length % 2 != 0 then
    .error ("trace info must come in pairs of port and channel identifiers '\x7bportID\x7d/\x7bchannelID\x7d', got the identifiers: [" ++
      " ".intercalate identifiers ++ "]")
  else validateIdentifierPairs host 0 identifiers

/-! ### Traces -/

/-- A class id split into its route and its base. -/
structure ClassTrace where
  path : String
  baseClassId : String
deriving DecidableEq, Repr

/-- The loop of `extractPathAndBaseFromFullClassId` over the pieces still to read, for a split of
`length` pieces: a pair whose second piece is a channel identifier joins the route, and the first
piece that does not start such a pair starts the base. A split of at most two pieces is all base. -/
def extractLoop (length : ℕ) : List String → List String × List String
  | [] => ([], [])
  | [x] => ([], [x])
  | port :: channel :: rest =>
    if 2 < length && host.isValidChannelID channel then
      let r := extractLoop length rest
      (port :: channel :: r.1, r.2)
    else ([], port :: channel :: rest)

/-- `extractPathAndBaseFromFullClassId`: the route and the base, joined back with `/`. -/
def extractPathAndBaseFromFullClassId (items : List String) : String × String :=
  let r := extractLoop host items.length items
  (joinWith '/' r.1, joinWith '/' r.2)

/-- `ParseClassTrace`. -/
def parseClassTrace (rawClassId : String) : ClassTrace :=
  let classIdSplit := splitOn '/' rawClassId
  if classIdSplit.head? = some rawClassId then ⟨"", rawClassId⟩
  else
    let r := extractPathAndBaseFromFullClassId host classIdSplit
    ⟨r.1, r.2⟩

/-- `GetPrefixedClassId`: a class id with one more port/channel pair in front. -/
def getPrefixedClassId (portID channelID baseClassId : String) : String :=
  portID ++ "/" ++ channelID ++ "/" ++ baseClassId

/-- `GetPrefix`: the route and a trailing separator. -/
def ClassTrace.getPrefix (t : ClassTrace) : String :=
  t.path ++ "/"

/-- `GetFullClassIdPath`: the route and the base, or the base alone. -/
def ClassTrace.getFullClassIdPath (t : ClassTrace) : String :=
  if t.path = "" then t.baseClassId else t.getPrefix ++ t.baseClassId

/-- The message of the module's invalid-class-id error. -/
def errInvalidClassIdForNftTransfer : String := "invalid class id for cross-chain nft transfer"

/-- `ValidatePrefixedClassId`: an unprefixed class id that is not blank, or a prefixed one whose
last piece is not blank and whose route is made of valid port and channel identifiers. -/
def validatePrefixedClassId (classId : String) : Except String Unit :=
  let classIdSplit := splitOn '/' classId
  if classIdSplit.head? = some classId && !isBlank classId then .ok ()
  else if isBlank (classIdSplit.getLastD "") then
    .error (wrap "base class id cannot be blank" errInvalidClassIdForNftTransfer)
  else
    let path := (extractPathAndBaseFromFullClassId host classIdSplit).1
    if path = "" then .ok ()
    else validateTraceIdentifiers host (splitOn '/' path)

/-! ### The round trip -/

/-- The route and the base are a cut of the pieces. -/
theorem extractLoop_append (length : ℕ) (items : List String) :
    (extractLoop host length items).1 ++ (extractLoop host length items).2 = items := by
  fun_induction extractLoop host length items with
  | case1 => rfl
  | case2 => rfl
  | case3 port channel rest h r ih => exact congrArg (port :: channel :: ·) ih
  | case4 => rfl

/-- The route is empty or starts with a pair. -/
theorem extractLoop_fst_eq_nil_or_pair (length : ℕ) (items : List String) :
    (extractLoop host length items).1 = [] ∨
      ∃ port channel rest, (extractLoop host length items).1 = port :: channel :: rest := by
  fun_cases extractLoop host length items with
  | case3 port channel rest h => exact .inr ⟨port, channel, _, rfl⟩
  | _ => exact .inl rfl

/-- Two pieces or more join to a string holding the separator, so not to the empty one. -/
theorem joinWith_cons_cons_ne_empty (sep : Char) (a b : String) (rest : List String) :
    joinWith sep (a :: b :: rest) ≠ "" := by
  intro h
  have := congrArg String.toList h
  rw [toList_joinWith] at this
  simp [List.intercalate_cons_cons] at this

/-- Joining a route and a non-empty base with a separator between them. -/
theorem joinWith_append {sep : Char} {l m : List String} (hl : l ≠ []) (hm : m ≠ []) :
    joinWith sep l ++ String.singleton sep ++ joinWith sep m = joinWith sep (l ++ m) := by
  rw [joinWith, joinWith, joinWith, String.intercalate_append_of_ne_nil hl hm]

/-- A parse that leaves a base prints back to the class id it read. -/
theorem getFullClassIdPath_parseClassTrace (s : String)
    (h : (parseClassTrace host s).baseClassId ≠ "") :
    (parseClassTrace host s).getFullClassIdPath = s := by
  dsimp only [parseClassTrace] at h ⊢
  by_cases hs : (splitOn '/' s).head? = some s
  · -- no separator: the whole string is the base
    rw [if_pos hs]
    simp [ClassTrace.getFullClassIdPath]
  · rw [if_neg hs] at h ⊢
    simp only [extractPathAndBaseFromFullClassId] at h ⊢
    set r := extractLoop host (splitOn '/' s).length (splitOn '/' s)
    have hcut : r.1 ++ r.2 = splitOn '/' s := extractLoop_append _ _ _
    -- the base is non-empty, since joining no pieces gives the empty string
    have hr2 : r.2 ≠ [] := fun h2 => h (by rw [h2]; rfl)
    unfold ClassTrace.getFullClassIdPath ClassTrace.getPrefix
    dsimp only
    split_ifs with hp
    · -- an empty route is no pieces at all, so the base is the whole split
      have hr1 : r.1 = [] := by
        rcases extractLoop_fst_eq_nil_or_pair host (splitOn '/' s).length (splitOn '/' s) with
          h1 | ⟨a, b, rest, h1⟩
        · exact h1
        · exact absurd (h1 ▸ hp) (joinWith_cons_cons_ne_empty '/' a b rest)
      rw [← joinWith_splitOn '/' s, ← hcut, hr1, List.nil_append]
    · have hr1 : r.1 ≠ [] := fun h1 => hp (by rw [h1]; rfl)
      rw [show "/" = String.singleton '/' from rfl, joinWith_append hr1 hr2, hcut,
        joinWith_splitOn]

/-- A host for the examples: a channel id is `channel-` and digits, and every port and channel
identifier passes. -/
def exampleHost : IbcHost where
  isValidChannelID id :=
    "channel-".toList.isPrefixOf id.toList && !(id.toList.drop 8).isEmpty &&
      (id.toList.drop 8).all Char.isDigit
  portIdentifierValidator _ := .ok ()
  channelIdentifierValidator _ := .ok ()

/-- A class id that went through one hop prints back after parsing. -/
theorem getFullClassIdPath_parseClassTrace_hop :
    (parseClassTrace exampleHost "nft-transfer/channel-0/class").getFullClassIdPath =
      "nft-transfer/channel-0/class" :=
  getFullClassIdPath_parseClassTrace _ _ (by decide +kernel)

example : parseClassTrace exampleHost
      "portidone/channel-0/portidtwo/channel-1/0x123::nft_store::Extension" =
    ⟨"portidone/channel-0/portidtwo/channel-1", "0x123::nft_store::Extension"⟩ := by
  decide +kernel

/-- A class id made only of port/channel pairs passes validation, yet parses into a route with an
empty base and prints back with a trailing separator; prefixed once more on receipt, the voucher's
trace prints to a path other than the one it was minted for. This holds for any host checks that
take `channel-0`, `channel-1` and `channel-2` for channel ids and accept the port `transfer` and
the channels `channel-0` and `channel-1`, as ibc-go's do. -/
theorem validatePrefixedClassId_accepts_unprintable
    (hchannel : ∀ id ∈ ["channel-0", "channel-1", "channel-2"], host.isValidChannelID id = true)
    (hportId : host.portIdentifierValidator "transfer" = .ok ())
    (hchannelId : ∀ id ∈ ["channel-0", "channel-1"],
      host.channelIdentifierValidator id = .ok ()) :
    validatePrefixedClassId host "transfer/channel-0/transfer/channel-1" = .ok () ∧
      (parseClassTrace host "transfer/channel-0/transfer/channel-1").getFullClassIdPath =
        "transfer/channel-0/transfer/channel-1" ++ "/" ∧
      (parseClassTrace host (getPrefixedClassId "transfer" "channel-2"
        "transfer/channel-0/transfer/channel-1")).getFullClassIdPath =
        getPrefixedClassId "transfer" "channel-2" "transfer/channel-0/transfer/channel-1" ++
          "/" := by
  simp only [List.mem_cons, List.not_mem_nil, or_false, forall_eq_or_imp, forall_eq]
    at hchannel hchannelId
  obtain ⟨h0, h1, h2⟩ := hchannel
  obtain ⟨hc0, hc1⟩ := hchannelId
  have hsplit : splitOn '/' "transfer/channel-0/transfer/channel-1" =
      ["transfer", "channel-0", "transfer", "channel-1"] := by decide
  have hsplit' : splitOn '/' (getPrefixedClassId "transfer" "channel-2"
      "transfer/channel-0/transfer/channel-1") =
      ["transfer", "channel-2", "transfer", "channel-0", "transfer", "channel-1"] := by decide
  -- the route takes every pair, and the base is empty
  have hroute : extractPathAndBaseFromFullClassId host
      ["transfer", "channel-0", "transfer", "channel-1"] =
      ("transfer/channel-0/transfer/channel-1", "") := by
    simp [extractPathAndBaseFromFullClassId, extractLoop, h0, h1]
    decide
  have hroute' : extractPathAndBaseFromFullClassId host
      ["transfer", "channel-2", "transfer", "channel-0", "transfer", "channel-1"] =
      ("transfer/channel-2/transfer/channel-0/transfer/channel-1", "") := by
    simp [extractPathAndBaseFromFullClassId, extractLoop, h0, h1, h2]
    decide
  refine ⟨?_, ?_, ?_⟩
  · have hblank : isBlank "channel-1" = false := by decide
    simp [validatePrefixedClassId, hsplit, hroute, hblank, validateTraceIdentifiers,
      validateIdentifierPairs, hportId, hc0, hc1]
    rfl
  · simp [parseClassTrace, hsplit, hroute, ClassTrace.getFullClassIdPath, ClassTrace.getPrefix]
  · simp [parseClassTrace, hsplit', hroute', ClassTrace.getFullClassIdPath, ClassTrace.getPrefix]
    decide

/-- The example host meets the premises of the unprintable class id. -/
theorem validatePrefixedClassId_accepts_unprintable_exampleHost :
    (∀ id ∈ ["channel-0", "channel-1", "channel-2"], exampleHost.isValidChannelID id = true) ∧
      exampleHost.portIdentifierValidator "transfer" = .ok () ∧
      (∀ id ∈ ["channel-0", "channel-1"],
        exampleHost.channelIdentifierValidator id = .ok ()) ∧
      validatePrefixedClassId exampleHost "transfer/channel-0/transfer/channel-1" = .ok () :=
  have hchannel : ∀ id ∈ ["channel-0", "channel-1", "channel-2"],
      exampleHost.isValidChannelID id = true := by decide
  have hchannelId : ∀ id ∈ ["channel-0", "channel-1"],
      exampleHost.channelIdentifierValidator id = .ok () := by decide
  ⟨hchannel, rfl, hchannelId,
    (validatePrefixedClassId_accepts_unprintable exampleHost hchannel rfl hchannelId).1⟩

end Initia.NftTransfer
