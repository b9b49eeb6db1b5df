import SdyServer.Lib.Bytes
import SdyServer.Protocol.Message

/-!
# The round trip of a message

Writer and reader are separate recursions over the template. They agree because every part of a
message is written as a number of bytes that the reader consumes exactly, whatever stands around
them. What the two-byte length in front cannot count is not packed.
-/

namespace SdyServer.Protocol

section Statement

mutual

def FieldType.Fits : FieldType → Value → Prop
  | .byte, .number n => 0 ≤ n ∧ n < 256
  | .short, .number n => 0 ≤ n ∧ n < 65536
  | .int, .number n => 0 ≤ n ∧ n < 4294967296
  | .long, .number n => 0 ≤ n ∧ n < 2 ^ 53
  | .string, .string s => s.length < 65536
  | .template tpl, .record msg => tpl.Supplied msg ∧ ∀ key, key ∉ tpl.keys → msg key = .nil
  | _, _ => False

def Template.Supplied : Template → (String → Value) → Prop
  | .nil, _ => True
  | .cons key type count rest, msg =>
      (if 1 < count then
        ∃ items, msg key = .array items ∧ items.length < 65536 ∧ ∀ item ∈ items, type.Fits item
      else type.Fits (msg key)) ∧ rest.Supplied msg

def Template.keys : Template → List String
  | .nil => []
  | .cons key _ _ rest => key :: rest.keys

end

mutual

def FieldType.size : FieldType → Value → Nat
  | .byte, _ => 1
  | .short, _ => 2
  | .int, _ => 4
  | .long, _ => 8
  | .string, .string s => 2 + s.length
  | .template tpl, .record msg => tpl.size msg
  | _, _ => 0

def Template.size : Template → (String → Value) → Nat
  | .nil, _ => 0
  | .cons key type count rest, msg =>
      (if 1 < count then
        match msg key with
        | .array items => 2 + (items.map fun item => type.size item).sum
        | _ => 2
      else type.size (msg key)) + rest.size msg

end

/-- A message is unpacked as it was packed, and its first two bytes count the others. The side that
unpacks is the other one. -/
def RoundTrip (templates : Templates) (msgId : Int) (msg : Value) (isclient : Bool) : Prop :=
  ∃ data, packMsg templates msgId msg isclient = .ok (some data) ∧
    unpackMsg templates (data.drop 2) (!isclient) = .ok (msgId, msg) ∧
    data2Short (data.take 2) = .ok (data.drop 2).length

end Statement

section Numbers

theorem stringChar_natCast (codes : List Nat) (hcodes : ∀ code ∈ codes, code < 256) :
    stringChar (codes.map (Nat.cast : Nat → Int)) = .ok (codes.map UInt8.ofNat) := by
  induction codes with
  | nil => rfl
  | cons code codes ih =>
      have hhead := hcodes code (List.mem_cons_self ..)
      have hrest := ih fun code h => hcodes code (List.mem_cons_of_mem _ h)
      unfold stringChar at hrest ⊢
      rw [List.map_cons, List.mapM_cons, hrest, if_pos ⟨by omega, by omega⟩]
      rfl

theorem byte2Data_eq {n : Nat} (hn : n < 256) : byte2Data n = .ok (Bytes.ofNat 1 n) := by
  have h := stringChar_natCast [n] (by simpa using hn)
  simpa [byte2Data, Bytes.ofNat] using h

theorem short2Data_eq {n : Nat} (hn : n < 65536) : short2Data n = .ok (Bytes.ofNat 2 n) := by
  have h := stringChar_natCast [n / 256, n % 256] (by
    simp only [List.mem_cons, List.not_mem_nil, or_false]
    rintro code (rfl | rfl) <;> omega)
  simpa [short2Data, Bytes.ofNat] using h

theorem int2Data_eq {n : Nat} (hn : n < 4294967296) : int2Data n = .ok (Bytes.ofNat 4 n) := by
  have h := stringChar_natCast [n / 16777216, n % 16777216 / 65536,
    n % 16777216 % 65536 / 256, n % 16777216 % 65536 % 256] (by
      simp only [List.mem_cons, List.not_mem_nil, or_false]
      rintro code (rfl | rfl | rfl | rfl) <;> omega)
  simpa [int2Data, Bytes.ofNat] using h

theorem int642Data_eq {n : Nat} (hn : n < 2 ^ 53) : int642Data n = .ok (Bytes.ofNat 8 n) := by
  have h := stringChar_natCast [n / 72057594037927936, n % 72057594037927936 / 281474976710656,
    n % 281474976710656 / 1099511627776, n % 1099511627776 / 4294967296, n % 4294967296 / 16777216,
    n % 16777216 / 65536, n % 65536 / 256, n % 256] (by
      simp only [List.mem_cons, List.not_mem_nil, or_false]
      rintro code (rfl | rfl | rfl | rfl | rfl | rfl | rfl | rfl) <;> omega)
  simpa [int642Data, Bytes.ofNat] using h

theorem data2Byte_eq {data : List UInt8} (hlen : data.length = 1) :
    data2Byte data = some (Bytes.toNat data : Int) := by
  obtain ⟨a, rfl⟩ := List.length_eq_one_iff.1 hlen
  simp [data2Byte, Lua.nth, Bytes.toNat]

theorem data2Short_eq {data : List UInt8} (hlen : data.length = 2) :
    data2Short data = .ok (Bytes.toNat data : Int) := by
  obtain ⟨a, b, rfl⟩ := List.length_eq_two.1 hlen
  simp [data2Short, byteAt, Lua.nth, Bytes.toNat, Except.map]
  omega

theorem data2Int_eq {data : List UInt8} (hlen : data.length = 4) :
    data2Int data = .ok (Bytes.toNat data : Int) := by
  match data, hlen with
  | [a, b, c, d], _ =>
      simp [data2Int, byteAt, Lua.nth, Bytes.toNat, Except.map]
      omega

theorem data2Int64_eq {data : List UInt8} (hlen : data.length = 8) :
    data2Int64 data = .ok (Bytes.toNat data : Int) := by
  match data, hlen with
  | [a, b, c, d, e, f, g, h], _ =>
      simp [data2Int64, byteAt, Lua.nth, Bytes.toNat, Except.map]
      omega

end Numbers

section Values

variable {buffer bytes : List UInt8} {idx n : Nat}

theorem sub_eq (hat : Bytes.At buffer idx bytes) : sub buffer (idx + 1) bytes.length = bytes :=
  hat.take

/-- The bytes are what the writer appends for the value, and the reader takes them for it wherever
they stand. -/
structure Codes (type : FieldType) (value : Value) (bytes : List UInt8) : Prop where
  write : ∀ text data, writeValue text type value data = .ok (data ++ bytes)
  read : ∀ buffer idx, Bytes.At buffer idx bytes →
    readValue buffer type (idx + 1) = .ok (value, idx + bytes.length + 1)
  length : bytes.length = type.size value

theorem codes_byte (hn : n < 256) : Codes .byte (.number n) (Bytes.ofNat 1 n) := by
  refine ⟨fun text data => ?_, fun buffer idx hat => ?_, Bytes.length_ofNat ..⟩
  · have hrange : (0 : Int) ≤ n ∧ (n : Int) < 256 := ⟨by omega, by omega⟩
    simp [writeValue, appendByte, append, byte2Data_eq hn, hrange]
  · have hsub := sub_eq hat
    rw [Bytes.length_ofNat] at hsub
    simp [readValue, getMsgByte, hsub, data2Byte_eq, Bytes.toNat_ofNat (n := 1) hn]

theorem getMsgShort_eq (hn : n < 65536) (hat : Bytes.At buffer idx (Bytes.ofNat 2 n)) :
    getMsgShort buffer (idx + 1) = .ok ((n : Int), idx + 2 + 1) := by
  have hsub := sub_eq hat
  rw [Bytes.length_ofNat] at hsub
  simp [getMsgShort, hsub, data2Short_eq, Bytes.toNat_ofNat (n := 2) hn]

theorem appendShort_eq (hn : n < 65536) (data : List UInt8) :
    appendShort data (.number n) = .ok (data ++ Bytes.ofNat 2 n) := by
  have hrange : (0 : Int) ≤ n ∧ (n : Int) < 65536 := ⟨by omega, by omega⟩
  simp [appendShort, append, short2Data_eq hn, hrange]

theorem codes_short (hn : n < 65536) : Codes .short (.number n) (Bytes.ofNat 2 n) := by
  refine ⟨fun text data => ?_, fun buffer idx hat => ?_, Bytes.length_ofNat ..⟩
  · exact appendShort_eq hn data
  · simp [readValue, getMsgShort_eq hn hat]

theorem codes_int (hn : n < 4294967296) : Codes .int (.number n) (Bytes.ofNat 4 n) := by
  refine ⟨fun text data => ?_, fun buffer idx hat => ?_, Bytes.length_ofNat ..⟩
  · have hrange : (0 : Int) ≤ n ∧ (n : Int) < 4294967296 := ⟨by omega, by omega⟩
    simp [writeValue, appendInt, append, int2Data_eq hn, hrange]
  · have hsub := sub_eq hat
    rw [Bytes.length_ofNat] at hsub
    simp [readValue, getMsgInt, hsub, data2Int_eq, Bytes.toNat_ofNat (n := 4) hn]

theorem codes_long (hn : n < 2 ^ 53) : Codes .long (.number n) (Bytes.ofNat 8 n) := by
  have hn' : n < 256 ^ 8 := by omega
  refine ⟨fun text data => ?_, fun buffer idx hat => ?_, Bytes.length_ofNat ..⟩
  · simp [writeValue, appendInt64, append, int642Data_eq hn]
  · have hsub := sub_eq hat
    rw [Bytes.length_ofNat] at hsub
    simp [readValue, getMsgLong, hsub, data2Int64_eq, Bytes.toNat_ofNat hn']

theorem codes_string {s : List UInt8} (hs : s.length < 65536) :
    Codes .string (.string s) (Bytes.ofNat 2 s.length ++ s) := by
  refine ⟨fun text data => ?_, fun buffer idx hat => ?_, ?_⟩
  · simp [writeValue, appendString, short2Data_eq hs]
  · obtain ⟨hlen, hs'⟩ := hat.append
    have hsub := sub_eq hlen
    have hsub' := sub_eq hs'
    rw [Bytes.length_ofNat] at hsub hsub'
    simp only [readValue, getMsgString, hsub, data2Short_eq (Bytes.length_ofNat ..),
      Bytes.toNat_ofNat (n := 2) hs, Lua.ok_bind, Lua.pure_eq_ok, Int.toNat_natCast]
    rw [Nat.add_right_comm idx 1 2, hsub', List.length_append, Bytes.length_ofNat]
    congr 2
    omega
  · rw [List.length_append, Bytes.length_ofNat]
    rfl

theorem exists_codes_items {type : FieldType} {items : List Value}
    (hitems : ∀ item ∈ items, ∃ bytes, Codes type item bytes) :
    ∃ bytes,
      (∀ text data, items.foldlM (fun data item => writeValue text type item data) data =
        .ok (data ++ bytes)) ∧
      (∀ buffer idx, Bytes.At buffer idx bytes →
        readItems (fun idx => readValue buffer type idx) items.length (idx + 1) =
          .ok (items, idx + bytes.length + 1)) ∧
      bytes.length = (items.map fun item => type.size item).sum := by
  induction items with
  | nil => exact ⟨[], fun text data => by simp, fun buffer idx _ => rfl, rfl⟩
  | cons item items ih =>
      obtain ⟨head, hhead⟩ := hitems item (List.mem_cons_self ..)
      obtain ⟨rest, hwrite, hread, hlen⟩ := ih fun item h => hitems item (List.mem_cons_of_mem _ h)
      refine ⟨head ++ rest, fun text data => ?_, fun buffer idx hat => ?_, ?_⟩
      · rw [List.foldlM_cons, hhead.write, Lua.ok_bind, hwrite, List.append_assoc]
      · obtain ⟨hathead, hatrest⟩ := hat.append
        rw [List.length_cons, readItems, hhead.read buffer idx hathead, Lua.ok_bind]
        dsimp only
        rw [hread buffer _ hatrest, List.length_append, ← Nat.add_assoc]
        rfl
      · rw [List.length_append, hhead.length, hlen, List.map_cons, List.sum_cons]

end Values

section Messages

/-- `Codes` for the fields of a message. The reader leaves other keys alone. -/
structure CodesFields (tpl : Template) (msg : String → Value) (bytes : List UInt8) : Prop where
  write : ∀ data, writer (.record msg) tpl data = .ok (data ++ bytes)
  read : ∀ buffer start idx, Bytes.At buffer idx bytes → reader buffer tpl start (idx + 1) =
    .ok (fun key => if key ∈ tpl.keys then msg key else start key, idx + bytes.length + 1)
  length : bytes.length = tpl.size msg

variable {tpl rest : Template} {type : FieldType} {key : String} {count : Nat}
  {msg : String → Value} {bytes bytes' : List UInt8}

theorem restrict_keys (hother : ∀ key, key ∉ tpl.keys → msg key = .nil) :
    (fun key => if key ∈ tpl.keys then msg key else .nil) = msg := by
  funext key
  split_ifs with hkey
  · rfl
  · exact (hother key hkey).symm

theorem CodesFields.template (hfields : CodesFields tpl msg bytes)
    (hother : ∀ key, key ∉ tpl.keys → msg key = .nil) :
    Codes (.template tpl) (.record msg) bytes := by
  refine ⟨fun text data => hfields.write data, fun buffer idx hat => ?_, hfields.length⟩
  rw [readValue, hfields.read buffer _ idx hat, Lua.ok_bind, restrict_keys hother]
  rfl

/-- The reader sets the first field, and whatever the rest sets agrees with the message. -/
theorem update_then (start : String → Value) :
    (fun key' => if key' ∈ rest.keys then msg key' else Function.update start key (msg key) key') =
      fun key' => if key' ∈ (Template.cons key type count rest).keys then msg key' else
      start key' := by
  funext key'
  rw [Template.keys, Function.update_apply]
  by_cases hkey : key' = key
  · simp [hkey]
  · simp [hkey]

theorem CodesFields.cons_value (hcount : ¬1 < count) (hvalue : Codes type (msg key) bytes)
    (hrest : CodesFields rest msg bytes') :
    CodesFields (.cons key type count rest) msg (bytes ++ bytes') := by
  refine ⟨fun data => ?_, fun buffer start idx hat => ?_, ?_⟩
  · rw [writer, Value.index, Lua.ok_bind, if_neg hcount, hvalue.write, Lua.ok_bind, hrest.write,
      List.append_assoc]
  · obtain ⟨hat, hatrest⟩ := hat.append
    rw [reader, if_neg hcount, hvalue.read buffer idx hat, Lua.ok_bind]
    dsimp only
    rw [hrest.read buffer _ _ hatrest, update_then, List.length_append, Nat.add_assoc idx]
  · rw [List.length_append, hvalue.length, hrest.length, Template.size, if_neg hcount]

theorem CodesFields.cons_items (hcount : 1 < count) {items : List Value}
    (hmsg : msg key = .array items)
    (hlen : items.length < 65536) (hitems : ∀ item ∈ items, ∃ bytes, Codes type item bytes)
    (hrest : CodesFields rest msg bytes') :
    ∃ bytes, CodesFields (.cons key type count rest) msg bytes := by
  obtain ⟨bytes, hwrite, hread, hsum⟩ := exists_codes_items hitems
  refine ⟨Bytes.ofNat 2 items.length ++ (bytes ++ bytes'), fun data => ?_,
    fun buffer start idx hat => ?_, ?_⟩
  · rw [writer, Value.index, Lua.ok_bind, if_pos hcount, hmsg, Value.items, Lua.ok_bind]
    dsimp only
    rw [appendShort_eq hlen, Lua.ok_bind, hwrite, Lua.ok_bind, hrest.write, List.append_assoc,
      List.append_assoc]
  · obtain ⟨hatlen, hat⟩ := hat.append
    obtain ⟨hatitems, hatrest⟩ := hat.append
    rw [Bytes.length_ofNat] at hatitems hatrest
    rw [reader, if_pos hcount, getMsgShort_eq hlen hatlen, Lua.ok_bind]
    dsimp only
    rw [Int.toNat_natCast, hread buffer _ hatitems, Lua.ok_bind]
    dsimp only
    rw [← hmsg, hrest.read buffer _ _ hatrest, update_then, List.length_append, List.length_append,
      Bytes.length_ofNat]
    congr 2
    omega
  · rw [Template.size, if_pos hcount, hmsg, List.length_append, List.length_append,
      Bytes.length_ofNat,
      hsum, hrest.length, Nat.add_assoc]

mutual

theorem exists_codes : ∀ {type : FieldType} {value : Value}, type.Fits value →
    ∃ bytes, Codes type value bytes
  | .byte, .number n, hfits => by
      lift n to Nat using hfits.1
      exact ⟨_, codes_byte (by exact_mod_cast hfits.2)⟩
  | .short, .number n, hfits => by
      lift n to Nat using hfits.1
      exact ⟨_, codes_short (by exact_mod_cast hfits.2)⟩
  | .int, .number n, hfits => by
      lift n to Nat using hfits.1
      exact ⟨_, codes_int (by exact_mod_cast hfits.2)⟩
  | .long, .number n, hfits => by
      lift n to Nat using hfits.1
      exact ⟨_, codes_long (by exact_mod_cast hfits.2)⟩
  | .string, .string s, hfits => ⟨_, codes_string hfits⟩
  | .template tpl, .record msg, hfits => by
      obtain ⟨bytes, hfields⟩ := exists_codesFields hfits.1
      exact ⟨bytes, hfields.template hfits.2⟩

theorem exists_codesFields : ∀ {tpl : Template} {msg : String → Value}, tpl.Supplied msg →
    ∃ bytes, CodesFields tpl msg bytes
  | .nil, msg, _ => ⟨[], fun data => by simp [writer], fun buffer start idx _ => rfl, rfl⟩
  | .cons key type count rest, msg, hsupplied => by
      obtain ⟨hfield, hrest⟩ := hsupplied
      obtain ⟨bytes', hrest⟩ := exists_codesFields hrest
      split_ifs at hfield with hcount
      · obtain ⟨items, hmsg, hlen, hitems⟩ := hfield
        exact CodesFields.cons_items hcount hmsg hlen
          (fun item h => exists_codes (hitems item h)) hrest
      · obtain ⟨bytes, hvalue⟩ := exists_codes hfield
        exact ⟨bytes ++ bytes', CodesFields.cons_value hcount hvalue hrest⟩

end

theorem short2Data_error {n : Int} (hn : ¬(0 ≤ n ∧ n < 65536)) :
    short2Data n = .error .badArgument := by
  have hout : ¬(0 ≤ n / 256 ∧ n / 256 < 256) := by omega
  unfold short2Data stringChar
  rw [List.mapM_cons, if_neg hout]
  rfl

variable {templates : Templates} {msgId : Int} {isclient : Bool}

/-- What is packed when the fields are written as `bytes`. -/
theorem CodesFields.packMsg (hfields : CodesFields tpl msg bytes)
    (htpl : (if isclient then templates.request msgId else templates.respone msgId) = some tpl) :
    packMsg templates msgId (.record msg) isclient = do
      let data ← getData msgId bytes
      return some data := by
  unfold Protocol.packMsg
  dsimp only
  rw [htpl, Lua.need_some, Lua.ok_bind, hfields.write, Lua.ok_bind, List.nil_append]

theorem getData_eq {msgId : Nat} (hid : msgId < 65536) (hsize : 2 + bytes.length < 65536) :
    getData msgId bytes =
      .ok (Bytes.ofNat 2 (2 + bytes.length) ++ (Bytes.ofNat 2 msgId ++ bytes)) := by
  have hlen := short2Data_eq hsize
  rw [Nat.cast_add, Nat.cast_two] at hlen
  rw [getData, hlen, Lua.ok_bind, short2Data_eq hid, Lua.ok_bind, List.append_assoc]
  rfl

theorem of_getData_eq_ok {data : List UInt8} (hdata : getData msgId bytes = .ok data) :
    (0 ≤ msgId ∧ msgId < 65536) ∧ 2 + bytes.length < 65536 := by
  obtain ⟨len, hlen, hdata⟩ := Lua.bind_eq_ok.1 hdata
  obtain ⟨id, hid, -⟩ := Lua.bind_eq_ok.1 hdata
  constructor
  · by_contra hout
    rw [short2Data_error hout] at hid
    cases hid
  · by_contra hout
    rw [short2Data_error (by omega)] at hlen
    cases hlen

/-- The id is read first, then the fields with the template that wrote them. -/
theorem CodesFields.unpackMsg {msgId : Nat} (hfields : CodesFields tpl msg bytes)
    (hother : ∀ key, key ∉ tpl.keys → msg key = .nil)
    (htpl : (if isclient then templates.request msgId else templates.respone msgId) = some tpl)
    (hid : msgId < 65536) :
    unpackMsg templates (Bytes.ofNat 2 msgId ++ bytes) (!isclient) = .ok (↑msgId, .record msg) := by
  have hat : Bytes.At (Bytes.ofNat 2 msgId ++ bytes ++ List.replicate 8 0) 0
      (Bytes.ofNat 2 msgId ++ bytes) := List.prefix_append ..
  obtain ⟨hatid, hatfields⟩ := hat.append
  rw [Bytes.length_ofNat] at hatfields
  have htpl' : (if !isclient then templates.respone msgId else templates.request msgId) =
      some tpl := by
    cases isclient <;> exact htpl
  unfold Protocol.unpackMsg
  dsimp only
  rw [getMsgShort_eq hid hatid, Lua.ok_bind]
  dsimp only
  rw [htpl']
  dsimp only
  rw [hfields.read _ _ _ hatfields, Lua.ok_bind, restrict_keys hother]
  rfl

theorem RoundTrip.short
    (htpl : (if isclient then templates.request msgId else templates.respone msgId) =
    some tpl) (hfields : CodesFields tpl msg bytes)
    (hround : RoundTrip templates msgId (.record msg) isclient) :
    (0 ≤ msgId ∧ msgId < 65536) ∧ 2 + tpl.size msg < 65536 := by
  obtain ⟨data, hpack, -⟩ := hround
  rw [hfields.packMsg htpl] at hpack
  obtain ⟨data, hdata, -⟩ := Lua.bind_eq_ok.1 hpack
  rw [← hfields.length]
  exact of_getData_eq_ok hdata

/-- **A message goes through both codecs exactly when its length and its id fit in two bytes.** -/
theorem roundTrip_iff
    (htpl : (if isclient then templates.request msgId else templates.respone msgId) =
    some tpl) (hmsg : (FieldType.template tpl).Fits (.record msg)) :
    RoundTrip templates msgId (.record msg) isclient ↔
      (0 ≤ msgId ∧ msgId < 65536) ∧ 2 + tpl.size msg < 65536 := by
  obtain ⟨bytes, hfields⟩ := exists_codesFields hmsg.1
  constructor
  · exact RoundTrip.short htpl hfields
  · rintro ⟨hid, hsize⟩
    rw [← hfields.length] at hsize
    lift msgId to Nat using hid.1
    have hid' : msgId < 65536 := by exact_mod_cast hid.2
    refine ⟨Bytes.ofNat 2 (2 + bytes.length) ++ (Bytes.ofNat 2 msgId ++ bytes), ?_, ?_, ?_⟩
    · rw [hfields.packMsg htpl, getData_eq hid' hsize]
      rfl
    · rw [List.drop_left' (Bytes.length_ofNat ..)]
      exact hfields.unpackMsg hmsg.2 htpl hid'
    · rw [List.drop_left' (Bytes.length_ofNat ..), List.take_left' (Bytes.length_ofNat ..),
        data2Short_eq (Bytes.length_ofNat ..), Bytes.toNat_ofNat hsize, List.length_append,
        Bytes.length_ofNat]

def handsTpl : Template :=
  .cons "uid" .int 1
    (.cons "hands" (.template (.cons "name" .string 1 (.cons "scores" .long 3 .nil))) 4 .nil)

def hand : String → Value
  | "name" => .string [97, 98]
  | "scores" => .array [.number 0, .number 9007199254740991]
  | _ => .nil

def hands : String → Value
  | "uid" => .number 100001
  | "hands" => .array [.record hand]
  | _ => .nil

theorem fits_hands : (FieldType.template handsTpl).Fits (.record hands) := by
  have hhand : ∀ key, key ∉ ["name", "scores"] → hand key = .nil := by
    intro key hkey
    unfold hand
    split <;> simp_all
  have hhands : ∀ key, key ∉ ["uid", "hands"] → hands key = .nil := by
    intro key hkey
    unfold hands
    split <;> simp_all
  refine ⟨⟨⟨by decide, by decide⟩, ⟨[.record hand], rfl, by decide, ?_⟩, trivial⟩, hhands⟩
  intro item hitem
  rw [List.mem_singleton.1 hitem]
  refine ⟨⟨show [97, 98].length <
    65536 by decide, ⟨[.number 0, .number 9007199254740991], rfl, by decide, ?_⟩,
    trivial⟩, hhand⟩
  intro item hitem
  simp only [List.mem_cons, List.not_mem_nil, or_false] at hitem
  rcases hitem with rfl | rfl
  · exact ⟨by decide, by decide⟩
  · exact ⟨by decide, by decide⟩

theorem roundTrip_hands :
    (FieldType.template handsTpl).Fits (.record hands) ∧
      RoundTrip ⟨fun _ => some handsTpl, fun _ => none⟩ 513 (.record hands) true := by
  refine ⟨fits_hands, (roundTrip_iff ?_ fits_hands).2 ⟨by decide, by decide⟩⟩
  rfl

def noteTpl : Template := .cons "text" .string 1 .nil

/-- A text that fills 65536 bytes together with its own length and the id. -/
def note : String → Value
  | "text" => .string (List.replicate 65532 0)
  | _ => .nil

theorem fits_note : (FieldType.template noteTpl).Fits (.record note) := by
  refine ⟨⟨?_, trivial⟩, fun key hkey => ?_⟩
  · show (List.replicate 65532 (0 : UInt8)).length < 65536
    rw [List.length_replicate]
    decide
  · have hkey' : key ∉ ["text"] := hkey
    unfold note
    split <;> simp_all

theorem not_roundTrip_note :
    (FieldType.template noteTpl).Fits (.record note) ∧
      ¬RoundTrip ⟨fun _ => some noteTpl, fun _ => none⟩ 1 (.record note) true := by
  refine ⟨fits_note, fun hround => ?_⟩
  obtain ⟨bytes, hfields⟩ := exists_codesFields fits_note.1
  have htext : note "text" = .string (List.replicate 65532 0) := by simp only [note]
  have hshort := (hround.short rfl hfields).2
  rw [noteTpl, Template.size, if_neg (by decide), htext, FieldType.size, List.length_replicate,
    Template.size] at hshort
  exact absurd hshort (by decide)

end Messages

end SdyServer.Protocol
