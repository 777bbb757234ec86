import Mathlib
import Initia.NftTransfer.Trace

/-!
# The ICS-721 packet data and its JSON codec

`GetBytes` serialises a `NonFungibleTokenPacketData` as proto3 JSON with sorted keys, after
collapsing a list of token URIs or token data that is empty or made only of empty strings to an
absent field; `DecodePacketData` parses it back and re-expands an absent list to as many empty
strings as there are token ids. Between them lies the JSON object: the marshaller writes each
field under its JSON name and omits it at its default value (`EmitDefaults: false`),
`MustSortJSON` sorts the members by key, and the unmarshaller reads each field by name, a missing
one keeping its default. The text of the JSON is a serializer and a parser, assumed mutually
inverse.

For data that passes `ValidateBasic` the round trip gives the data back field by field
(`decodePacketData_getBytes`): `ValidateBasic` makes both lists as long as the token ids, so a
collapsed list comes back as the same number of empty strings, and any other list is kept.

A Go `nil` slice and an empty one are both `[]` here: both marshal to an absent field.

Source: `x/ibc/nft-transfer/types/packet.go`, `x/ibc/nft-transfer/types/codec.go`.
-/

namespace Initia.NftTransfer

/-- `NonFungibleTokenPacketData`. -/
structure NonFungibleTokenPacketData where
  classId : String
  classUri : String
  classData : String
  tokenIds : List String
  tokenUris : List String
  tokenData : List String
  sender : String
  receiver : String
  memo : String
  deriving DecidableEq, Repr

/-! ### Validation -/

/-- The messages of the errors `ValidateBasic` wraps. -/
def errInvalidAddress : String := "invalid address"

def errInvalidClassId : String := "invalid class id"

def errInvalidTokenIds : String := "invalid token ids"

def errInvalidPacket : String := "invalid non-fungible token packet"

def errInvalidRequest : String := "invalid request"

/-- The token-id loop of `ValidateBasic`, with the ids `seen` so far. -/
def checkTokenIds (seen : List String) : List String → Except String Unit
  | [] => .ok ()
  | tokenId :: rest =>
    if isBlank tokenId then .error (wrap "invalid zero length token id" errInvalidTokenIds)
    else if tokenId ∈ seen then
      .error (wrap ("duplicate token id: " ++ tokenId) errInvalidTokenIds)
    else checkTokenIds (tokenId :: seen) rest

/-- `ValidateBasic`, with the host's identifier checks. -/
def NonFungibleTokenPacketData.validateBasic (nftpd : NonFungibleTokenPacketData)
    (host : IbcHost) : Except String Unit :=
  if isBlank nftpd.sender then .error (wrap "sender address cannot be blank" errInvalidAddress)
  else if isBlank nftpd.receiver then
    .error (wrap "receiver address cannot be blank" errInvalidAddress)
  else if isBlank nftpd.classId then
    .error (wrap "invalid zero length class id" errInvalidClassId)
  else if nftpd.tokenIds.length = 0 then
    .error (wrap "invalid zero length token ids" errInvalidTokenIds)
  else if nftpd.tokenIds.length ≠ nftpd.tokenUris.length then
    .error (wrap "the length of tokenUri must be 0 or the same as the length of TokenIds"
      errInvalidPacket)
  else if nftpd.tokenIds.length ≠ nftpd.tokenData.length then
    .error (wrap "the length of tokenData must be 0 or the same as the length of TokenIds"
      errInvalidPacket)
  else
    match checkTokenIds [] nftpd.tokenIds with
    | .error err => .error err
    | .ok () => validatePrefixedClassId host nftpd.classId

/-- Valid data has token ids, and as many token URIs and token data as token ids. -/
theorem NonFungibleTokenPacketData.lengths_of_validateBasic {nftpd : NonFungibleTokenPacketData}
    {host : IbcHost} (h : nftpd.validateBasic host = .ok ()) :
    nftpd.tokenIds.length ≠ 0 ∧ nftpd.tokenUris.length = nftpd.tokenIds.length ∧
      nftpd.tokenData.length = nftpd.tokenIds.length := by
  unfold validateBasic at h
  split_ifs at h with h1 h2 h3 h4 h5 h6
  exact ⟨h4, (not_not.mp h5).symm, (not_not.mp h6).symm⟩

/-! ### The JSON object -/

/-- The JSON values of the packet's fields. -/
inductive JsonValue
  | str (s : String)
  | arr (xs : List String)
  deriving DecidableEq, Repr

/-- A JSON object, its members in order. -/
abbrev JsonObject := List (String × JsonValue)

/-- A string field as the marshaller writes it: absent at `""`. -/
def strField (name s : String) : JsonObject :=
  if s = "" then [] else [(name, .str s)]

/-- A repeated string field as the marshaller writes it: absent when empty. -/
def arrField (name : String) (xs : List String) : JsonObject :=
  if xs = [] then [] else [(name, .arr xs)]

/-- `mustProtoMarshalJSON` (`jsonpb.Marshaler` with `EmitDefaults: false`, `OrigName: false`):
each field under its JSON name, in field order, omitted at its default. -/
def mustProtoMarshalJSON (nftpd : NonFungibleTokenPacketData) : JsonObject :=
  strField "classId" nftpd.classId ++ strField "classUri" nftpd.classUri ++
    strField "classData" nftpd.classData ++ arrField "tokenIds" nftpd.tokenIds ++
    arrField "tokenUris" nftpd.tokenUris ++ arrField "tokenData" nftpd.tokenData ++
    strField "sender" nftpd.sender ++ strField "receiver" nftpd.receiver ++
    strField "memo" nftpd.memo

/-- `sdk.MustSortJSON`: the members sorted by key. -/
def mustSortJSON (obj : JsonObject) : JsonObject :=
  obj.mergeSort fun a b => decide (a.1 ≤ b.1)

/-- A string field as the unmarshaller reads it: a missing member is `""`. -/
def readString (obj : JsonObject) (name : String) : Except String String :=
  match obj.lookup name with
  | none => .ok ""
  | some (.str s) => .ok s
  | some (.arr _) => .error ("bad value for field " ++ name)

/-- A repeated string field as the unmarshaller reads it: a missing member is `[]`. -/
def readStrings (obj : JsonObject) (name : String) : Except String (List String) :=
  match obj.lookup name with
  | none => .ok []
  | some (.arr xs) => .ok xs
  | some (.str _) => .error ("bad value for field " ++ name)

/-- `unmarshalProtoJSON`: each field read by its JSON name. -/
def unmarshalProtoJSON (obj : JsonObject) : Except String NonFungibleTokenPacketData := do
  return {
    classId := ← readString obj "classId"
    classUri := ← readString obj "classUri"
    classData := ← readString obj "classData"
    tokenIds := ← readStrings obj "tokenIds"
    tokenUris := ← readStrings obj "tokenUris"
    tokenData := ← readStrings obj "tokenData"
    sender := ← readString obj "sender"
    receiver := ← readString obj "receiver"
    memo := ← readString obj "memo" }

/-! ### Encoding and decoding -/

/-- `requireShape`: the list is empty or all its strings are. (Go's `nil` case returns `false`
only to leave a `nil` slice as it is.) -/
def requireShape (contents : List String) : Bool :=
  contents.length = 0 || (contents.filter fun v => v.length = 0).length = contents.length

/-- `GetBytes`, printing the sorted JSON object with `serialize`. -/
def NonFungibleTokenPacketData.getBytes {B : Type} (serialize : JsonObject → B)
    (nftpd : NonFungibleTokenPacketData) : B :=
  let nftpd := if requireShape nftpd.tokenUris then { nftpd with tokenUris := [] } else nftpd
  let nftpd := if requireShape nftpd.tokenData then { nftpd with tokenData := [] } else nftpd
  serialize (mustSortJSON (mustProtoMarshalJSON nftpd))

/-- `DecodePacketData`, reading the JSON object with `parse`. -/
def decodePacketData {B : Type} (parse : B → Except String JsonObject) (packetData : B) :
    Except String NonFungibleTokenPacketData :=
  match parse packetData >>= unmarshalProtoJSON with
  | .error err => .error (wrap err errInvalidRequest)
  | .ok data =>
    -- reshape absent token URIs and token data to one empty string per token id
    let data := if data.tokenUris.length = 0 then
      { data with tokenUris := List.replicate data.tokenIds.length "" } else data
    let data := if data.tokenData.length = 0 then
      { data with tokenData := List.replicate data.tokenIds.length "" } else data
    .ok data

/-! ### Reading back what the marshaller wrote -/

/-- In an object with distinct keys, a lookup finds exactly the members. -/
theorem lookup_eq_some_iff {obj : JsonObject} (h : (obj.map Prod.fst).Nodup) {k : String}
    {v : JsonValue} : obj.lookup k = some v ↔ (k, v) ∈ obj := by
  induction obj with
  | nil => simp
  | cons a obj ih =>
    obtain ⟨k', w⟩ := a
    obtain ⟨ha, h⟩ := List.nodup_cons.mp h
    by_cases hk : k = k'
    · -- the head is the member: no other member has its key
      subst hk
      simp only [List.lookup, beq_self_eq_true, Option.some.injEq, List.mem_cons, Prod.mk.injEq,
        true_and]
      refine ⟨fun hv => .inl hv.symm, fun hv => hv.elim Eq.symm fun hmem => ?_⟩
      exact absurd (List.mem_map_of_mem (f := Prod.fst) hmem) ha
    · have hne : (k == k') = false := beq_false_of_ne hk
      simp only [List.lookup, hne, List.mem_cons, Prod.mk.injEq, hk, false_and, false_or]
      exact ih h

/-- Sorting the members of an object with distinct keys changes no lookup. -/
theorem lookup_mustSortJSON {obj : JsonObject} (h : (obj.map Prod.fst).Nodup) (k : String) :
    (mustSortJSON obj).lookup k = obj.lookup k := by
  have hperm : (mustSortJSON obj).Perm obj := List.mergeSort_perm _ _
  have hnd : ((mustSortJSON obj).map Prod.fst).Nodup := ((hperm.map Prod.fst).nodup_iff).mpr h
  refine Option.ext fun v => ?_
  rw [lookup_eq_some_iff hnd, lookup_eq_some_iff h]
  exact hperm.mem_iff

theorem readString_strField (obj : JsonObject) (name s : String)
    (hobj : obj.lookup name = (strField name s).lookup name) : readString obj name = .ok s := by
  unfold readString
  rw [hobj, strField]
  split_ifs with hs
  · rw [hs]
    rfl
  · simp

theorem readStrings_arrField (obj : JsonObject) (name : String) (xs : List String)
    (hobj : obj.lookup name = (arrField name xs).lookup name) : readStrings obj name = .ok xs := by
  unfold readStrings
  rw [hobj, arrField]
  split_ifs with hs
  · rw [hs]
    rfl
  · simp

@[simp]
theorem lookup_strField (name s k : String) :
    (strField name s).lookup k = if k = name ∧ s ≠ "" then some (.str s) else none := by
  unfold strField
  by_cases hs : s = ""
  · simp [hs]
  · by_cases hk : k = name
    · subst hk
      simp [hs]
    · simp [hs, hk, List.lookup, beq_false_of_ne hk]

@[simp]
theorem lookup_arrField (name k : String) (xs : List String) :
    (arrField name xs).lookup k = if k = name ∧ xs ≠ [] then some (.arr xs) else none := by
  unfold arrField
  by_cases hs : xs = []
  · simp [hs]
  · by_cases hk : k = name
    · subst hk
      simp [hs]
    · simp [hs, hk, List.lookup, beq_false_of_ne hk]

theorem keys_strField_sublist (name s : String) : ((strField name s).map Prod.fst).Sublist [name] := by
  unfold strField
  split_ifs <;> simp

theorem keys_arrField_sublist (name : String) (xs : List String) :
    ((arrField name xs).map Prod.fst).Sublist [name] := by
  unfold arrField
  split_ifs <;> simp

/-- The marshaller writes each key at most once. -/
theorem keys_mustProtoMarshalJSON_nodup (nftpd : NonFungibleTokenPacketData) :
    ((mustProtoMarshalJSON nftpd).map Prod.fst).Nodup := by
  have hsub : ((mustProtoMarshalJSON nftpd).map Prod.fst).Sublist
      (["classId"] ++ ["classUri"] ++ ["classData"] ++ ["tokenIds"] ++ ["tokenUris"] ++
        ["tokenData"] ++ ["sender"] ++ ["receiver"] ++ ["memo"]) := by
    simp only [mustProtoMarshalJSON, List.map_append]
    exact ((((((((keys_strField_sublist _ _).append (keys_strField_sublist _ _)).append
      (keys_strField_sublist _ _)).append (keys_arrField_sublist _ _)).append
      (keys_arrField_sublist _ _)).append (keys_arrField_sublist _ _)).append
      (keys_strField_sublist _ _)).append (keys_strField_sublist _ _)).append
      (keys_strField_sublist _ _)
  exact hsub.nodup (by decide)

/-- Unmarshalling the sorted object the marshaller wrote gives back every field: an omitted
field was at the default the unmarshaller fills in. -/
theorem unmarshalProtoJSON_mustSortJSON (nftpd : NonFungibleTokenPacketData) :
    unmarshalProtoJSON (mustSortJSON (mustProtoMarshalJSON nftpd)) = .ok nftpd := by
  have hlookup := lookup_mustSortJSON (keys_mustProtoMarshalJSON_nodup nftpd)
  unfold unmarshalProtoJSON
  rw [readString_strField _ "classId" nftpd.classId (by rw [hlookup]; simp [mustProtoMarshalJSON, List.lookup_append]),
    readString_strField _ "classUri" nftpd.classUri (by rw [hlookup]; simp [mustProtoMarshalJSON, List.lookup_append]),
    readString_strField _ "classData" nftpd.classData (by rw [hlookup]; simp [mustProtoMarshalJSON, List.lookup_append]),
    readStrings_arrField _ "tokenIds" nftpd.tokenIds (by rw [hlookup]; simp [mustProtoMarshalJSON, List.lookup_append]),
    readStrings_arrField _ "tokenUris" nftpd.tokenUris (by rw [hlookup]; simp [mustProtoMarshalJSON, List.lookup_append]),
    readStrings_arrField _ "tokenData" nftpd.tokenData (by rw [hlookup]; simp [mustProtoMarshalJSON, List.lookup_append]),
    readString_strField _ "sender" nftpd.sender (by rw [hlookup]; simp [mustProtoMarshalJSON, List.lookup_append]),
    readString_strField _ "receiver" nftpd.receiver (by rw [hlookup]; simp [mustProtoMarshalJSON, List.lookup_append]),
    readString_strField _ "memo" nftpd.memo (by rw [hlookup]; simp [mustProtoMarshalJSON, List.lookup_append])]
  rfl

/-! ### The round trip -/

/-- A list `requireShape` collapses is made of empty strings. -/
theorem eq_replicate_of_requireShape {contents : List String} (h : requireShape contents = true) :
    contents = List.replicate contents.length "" := by
  unfold requireShape at h
  simp only [Bool.or_eq_true, decide_eq_true_eq] at h
  rcases h with h0 | hall
  · rw [List.length_eq_zero_iff.mp h0]
    rfl
  · refine List.eq_replicate_iff.mpr ⟨rfl, fun v hv => ?_⟩
    have hv0 := List.length_filter_eq_length_iff.mp hall v hv
    simpa using hv0

/-- Collapsing a list of `n ≠ 0` strings as `GetBytes` does and re-expanding it to `n` strings
as `DecodePacketData` does gives the list back. -/
theorem reshape_collapse {contents : List String} {n : ℕ} (hn : contents.length = n)
    (hn0 : n ≠ 0) :
    (if (if requireShape contents then [] else contents).length = 0 then List.replicate n ""
      else if requireShape contents then [] else contents) = contents := by
  by_cases hs : requireShape contents = true
  · -- only empty strings: they come back as `n` empty strings
    simp only [hs, if_true, List.length_nil]
    rw [eq_replicate_of_requireShape hs, hn]
  · simp only [hs, Bool.false_eq_true, if_false]
    rw [if_neg (by omega)]

theorem getBytes_eq {B : Type} (serialize : JsonObject → B) (nftpd : NonFungibleTokenPacketData) :
    nftpd.getBytes serialize = serialize (mustSortJSON (mustProtoMarshalJSON
      { nftpd with
        tokenUris := if requireShape nftpd.tokenUris then [] else nftpd.tokenUris
        tokenData := if requireShape nftpd.tokenData then [] else nftpd.tokenData })) := by
  unfold NonFungibleTokenPacketData.getBytes
  dsimp only
  split_ifs <;> rfl

theorem decodePacketData_of_ok {B : Type} {parse : B → Except String JsonObject} {packetData : B}
    {data : NonFungibleTokenPacketData} (h : parse packetData >>= unmarshalProtoJSON = .ok data) :
    decodePacketData parse packetData = .ok
      { data with
        tokenUris := if data.tokenUris.length = 0 then List.replicate data.tokenIds.length ""
          else data.tokenUris
        tokenData := if data.tokenData.length = 0 then List.replicate data.tokenIds.length ""
          else data.tokenData } := by
  unfold decodePacketData
  rw [h]
  dsimp only
  split_ifs <;> rfl

/-- `DecodePacketData` gives back, field by field, what `GetBytes` encoded of data that passes
`ValidateBasic`, when parsing the JSON text gives back the object serialised. -/
theorem decodePacketData_getBytes {B : Type} (serialize : JsonObject → B)
    (parse : B → Except String JsonObject) (hcodec : ∀ obj, parse (serialize obj) = .ok obj)
    {nftpd : NonFungibleTokenPacketData} {host : IbcHost}
    (hvalid : nftpd.validateBasic host = .ok ()) :
    decodePacketData parse (nftpd.getBytes serialize) = .ok nftpd := by
  obtain ⟨hids, huris, hdata⟩ := nftpd.lengths_of_validateBasic hvalid
  rw [getBytes_eq, decodePacketData_of_ok (by rw [hcodec]; exact unmarshalProtoJSON_mustSortJSON _)]
  dsimp only
  rw [reshape_collapse huris hids, reshape_collapse hdata hids]

/-- Two tokens, the first with data and neither with a URI, through a text layer that keeps
the object as it is. -/
theorem decodePacketData_getBytes_twoTokens :
    (⟨"nft", "", "", ["1", "2"], ["", ""], ["a", ""], "init1alice", "init1bob", ""⟩ :
        NonFungibleTokenPacketData).validateBasic exampleHost = .ok () ∧
      decodePacketData (fun obj => .ok obj)
          ((⟨"nft", "", "", ["1", "2"], ["", ""], ["a", ""], "init1alice", "init1bob", ""⟩ :
            NonFungibleTokenPacketData).getBytes id) =
        .ok ⟨"nft", "", "", ["1", "2"], ["", ""], ["a", ""], "init1alice", "init1bob", ""⟩ := by
  have hvalid : (⟨"nft", "", "", ["1", "2"], ["", ""], ["a", ""], "init1alice", "init1bob", ""⟩ :
      NonFungibleTokenPacketData).validateBasic exampleHost = .ok () := by
    rfl
  exact ⟨hvalid, decodePacketData_getBytes id (fun obj => .ok obj) (fun _ => rfl) hvalid⟩

end Initia.NftTransfer
