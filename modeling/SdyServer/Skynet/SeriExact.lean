import SdyServer.Skynet.Seri
import Mathlib.Data.List.Perm.Basic
import Mathlib.Data.List.Forall2

/-!
# What is packed is unpacked

The blocks of the writer are the bytes it was given, one after the other. Every value that `pack`
takes comes out of `unpack` the same, whatever was packed after it, but for the order in which
`lua_next` gives the keys of a table.
-/

namespace SdyServer.Seri

namespace WriteBlock

variable (b : WriteBlock)

/-- What has been written. -/
def bytes : List UInt8 := b.full.flatten ++ b.current

@[simp]
theorem bytes_room : b.room.bytes = b.bytes := by
  unfold room
  split_ifs <;> simp [bytes]

@[simp]
theorem bytes_write (buf : List UInt8) (h : b.current.length + buf.length ≤ blockSize) :
    (b.write buf h).bytes = b.bytes ++ buf := by
  simp [write, bytes]

@[simp]
theorem bytes_push (buf : List UInt8) : (b.push buf).bytes = b.bytes ++ buf := by
  fun_induction push b buf with
  | case1 b buf h => rw [bytes_write, bytes_room]
  | case2 b buf h copy ih =>
      rw [ih, bytes_write, bytes_room, List.append_assoc, List.take_append_drop]

end WriteBlock

theorem seri_append {full : List (List UInt8)} {current : List UInt8}
    (hfull : ∀ block ∈ full, block.length = blockSize) :
    seri (full ++ [current]) (full.length * blockSize + current.length) = full.flatten ++
    current := by
  induction full with
  | nil =>
      simp only [List.nil_append, List.length_nil, Nat.zero_mul, Nat.zero_add,
        List.flatten_nil, seri]
      split_ifs with hzero hfit
      · exact (List.length_eq_zero_iff.mp hzero).symm
      · exact List.append_nil _
      · exact List.take_length
  | cons block full ih =>
      have hblock : block.length = blockSize := hfull block List.mem_cons_self
      have hlen : (block :: full).length * blockSize + current.length =
          blockSize + (full.length * blockSize + current.length) := by
        rw [List.length_cons, Nat.add_mul, Nat.one_mul]
        omega
      rw [List.cons_append, hlen, seri, if_neg (by simp [blockSize]), if_pos (Nat.le_add_right _ _),
        Nat.add_sub_cancel_left, ih fun block h => hfull block (List.mem_cons_of_mem _ h),
          List.flatten_cons,
        List.append_assoc]

/-- `seri` gives what was written, however it fell on the blocks. -/
theorem seri_bytes (b : WriteBlock) : seri (b.full ++ [b.current]) b.len = b.bytes := by
  rw [b.hlen, seri_append b.hfull, WriteBlock.bytes]

theorem pack_bytes (vs : List Value) : pack vs = (packFrom vs {}).map WriteBlock.bytes := by
  simp only [pack, seri_bytes]

/-! ## Values -/

mutual

/-- Every value is built from those that are not tables. -/
theorem Value.induction {P : Value → Prop}
    (leaf : ∀ v : Value, (∀ array next, v ≠ .table array next) → P v)
    (table : ∀ array next, (∀ v ∈ array, P v) → (∀ pair ∈ next, P pair.1 ∧ P pair.2) →
      P (.table array next)) :
    (v : Value) → P v
  | .nil => leaf _ (by simp)
  | .boolean _ => leaf _ (by simp)
  | .integer _ => leaf _ (by simp)
  | .number _ => leaf _ (by simp)
  | .pointer _ => leaf _ (by simp)
  | .string _ => leaf _ (by simp)
  | .unsupported _ => leaf _ (by simp)
  | .table array next => table array next (Value.induction_array leaf table
        array) (Value.induction_next leaf table next)

theorem Value.induction_array {P : Value → Prop}
    (leaf : ∀ v : Value, (∀ array next, v ≠ .table array next) → P v)
    (table : ∀ array next, (∀ v ∈ array, P v) → (∀ pair ∈ next, P pair.1 ∧ P pair.2) →
      P (.table array next)) :
    (array : List Value) → ∀ v ∈ array, P v
  | [] => List.forall_mem_nil P
  | v :: array =>
      List.forall_mem_cons.mpr ⟨Value.induction leaf table v,
        Value.induction_array leaf table array⟩

theorem Value.induction_next {P : Value → Prop}
    (leaf : ∀ v : Value, (∀ array next, v ≠ .table array next) → P v)
    (table : ∀ array next, (∀ v ∈ array, P v) → (∀ pair ∈ next, P pair.1 ∧ P pair.2) →
      P (.table array next)) :
    (next : List (Value × Value)) → ∀ pair ∈ next, P pair.1 ∧ P pair.2
  | [] => List.forall_mem_nil _
  | (key, value) :: next =>
      List.forall_mem_cons.mpr ⟨⟨Value.induction leaf table key, Value.induction leaf table value⟩,
        Value.induction_next leaf table next⟩

end

/-- The keys of the array part, in order. -/
def arrayEntries : Nat → List Value → List (Value × Value)
  | _, [] => []
  | i, v :: array =>
      if v.isNil then arrayEntries (i + 1) array else (.integer i, v) :: arrayEntries (i + 1) array

/-- The pairs that `wb_table_hash` writes. -/
def hashEntries (arraySize : Nat) (next : List (Value × Value)) : List (Value × Value) :=
  next.filter fun pair => !pair.1.inArray arraySize

/-- What Lua promises of a table: `lua_next` gives a key once, never nil nor with nil, and gives the
array part too. -/
structure TableOk (array : List Value) (next : List (Value × Value)) : Prop where
  size : array.length < 2 ^ 31
  key : ∀ pair ∈ next, pair.1.isNil = false
  value : ∀ pair ∈ next, pair.2.isNil = false
  once : next.Pairwise fun pair pair' => pair.1.sameKey pair'.1 = false
  part : (next.filter fun pair => pair.1.inArray array.length).Perm (arrayEntries 1 array)

/-- The values of Lua, with strings that an `int` can measure. -/
inductive Value.Ok : Value → Prop where
  | nil : Ok .nil
  | boolean (b : Bool) : Ok (.boolean b)
  | integer {i : Int} (hlow : -2 ^ 63 ≤ i) (hhigh : i < 2 ^ 63) : Ok (.integer i)
  | number (bits : UInt64) : Ok (.number bits)
  | pointer (p : UInt64) : Ok (.pointer p)
  | string {str : List UInt8} (hlen : str.length < 2 ^ 31) : Ok (.string str)
  | table {array : List Value} {next : List (Value × Value)} (htable : TableOk array next)
      (harray : ∀ v ∈ array, Ok v) (hkey : ∀ pair ∈ next, Ok pair.1)
        (hvalue : ∀ pair ∈ next, Ok pair.2) :
      Ok (.table array next)
  | unsupported (typename : String) : Ok (.unsupported typename)

/-- The same value, but for the order of the keys in its tables. -/
inductive Same : Value → Value → Prop where
  | leaf (v : Value) (hleaf : ∀ array next, v ≠ .table array next) : Same v v
  | table {array array' : List Value} {next between next' : List (Value × Value)}
      (harray : List.Forall₂ Same array array') (horder : next.Perm between)
      (hkey : List.Forall₂ Same (between.map Prod.fst) (next'.map Prod.fst))
      (hvalue : List.Forall₂ Same (between.map Prod.snd) (next'.map Prod.snd)) :
      Same (.table array next) (.table array' next')

section Same

variable {v v' : Value}

theorem Same.isNil (h : Same v v') : v'.isNil = v.isNil := by
  cases h <;> rfl

theorem Same.sameKey_left (h : Same v v') (key : Value) : v'.sameKey key = v.sameKey key := by
  cases h <;> rfl

theorem Same.sameKey_right (h : Same v v') (key : Value) : key.sameKey v' = key.sameKey v := by
  cases h with
  | leaf => rfl
  | table => cases key <;> rfl

/-- The pairs are the same, one by one. -/
def SamePairs (next next' : List (Value × Value)) : Prop :=
  List.Forall₂ (fun pair pair' => Same pair.1 pair'.1 ∧ Same pair.2 pair'.2) next next'

theorem SamePairs.key {next next' : List (Value × Value)} (h : SamePairs next next') :
    List.Forall₂ Same (next.map Prod.fst) (next'.map Prod.fst) :=
  List.forall₂_map_left_iff.mpr (List.forall₂_map_right_iff.mpr (h.imp fun _ _ hpair => hpair.1))

theorem SamePairs.value {next next' : List (Value × Value)} (h : SamePairs next next') :
    List.Forall₂ Same (next.map Prod.snd) (next'.map Prod.snd) :=
  List.forall₂_map_left_iff.mpr (List.forall₂_map_right_iff.mpr (h.imp fun _ _ hpair => hpair.2))

theorem samePairs_arrayEntries {array array' : List Value}
    (h : List.Forall₂ Same array array') (i : Nat) :
    SamePairs (arrayEntries i array) (arrayEntries i array') := by
  induction h generalizing i with
  | nil => exact .nil
  | cons hv _ ih =>
      rw [arrayEntries, arrayEntries, hv.isNil]
      split_ifs
      · exact ih (i + 1)
      · exact .cons ⟨.leaf _ (by simp), hv⟩ (ih (i + 1))

end Same

section Tables

theorem mem_arrayEntries {array : List Value} {i : Nat} {pair : Value × Value}
    (h : pair ∈ arrayEntries i array) :
    ∃ j : Nat, i ≤ j ∧ j < i + array.length ∧ pair.1 = .integer j := by
  induction array generalizing i with
  | nil => cases h
  | cons v array ih =>
      have hrest : pair ∈ arrayEntries (i + 1) array →
          ∃ j : Nat, i ≤ j ∧ j < i + (array.length + 1) ∧ pair.1 = .integer j := by
        intro h
        obtain ⟨j, hlow, hhigh, hkey⟩ := ih h
        exact ⟨j, by omega, by omega, hkey⟩
      rw [arrayEntries] at h
      split_ifs at h
      · exact hrest h
      · rcases List.mem_cons.mp h with rfl | h
        · exact ⟨i, le_rfl, Nat.lt_add_of_pos_right (Nat.succ_pos _), rfl⟩
        · exact hrest h

/-- A new key comes after the others. -/
theorem rawset_new {next : List (Value × Value)} {key value : Value} (hvalue : value.isNil = false)
    (hnew : ∀ pair ∈ next, pair.1.sameKey key = false) :
    rawset next key value = next ++ [(key, value)] := by
  have hany : (next.any fun pair => pair.1.sameKey key) = false :=
    List.any_eq_false.mpr fun pair hpair => by simp [hnew pair hpair]
  simp [rawset, hvalue, hany]

/-- Nil for a key that is not there does nothing. -/
theorem rawset_nil {next : List (Value × Value)} {key value : Value} (hvalue : value.isNil = true)
    (hnew : ∀ pair ∈ next, pair.1.sameKey key = false) : rawset next key value = next := by
  rw [rawset, if_pos hvalue]
  exact List.filter_eq_self.mpr fun pair hpair => by simp [hnew pair hpair]

theorem setArray_eq (array : List Value) (i : Nat) (next : List (Value × Value))
    (hnext : ∀ pair ∈ next, ∀ j : Nat, i ≤ j → pair.1.sameKey (.integer j) = false) :
    setArray i array next = next ++ arrayEntries i array := by
  induction array generalizing i next with
  | nil => exact (List.append_nil _).symm
  | cons v array ih =>
      have hnew : ∀ pair ∈ next, pair.1.sameKey (.integer i) = false :=
        fun pair hpair => hnext pair hpair i le_rfl
      rw [setArray, arrayEntries]
      by_cases hv : v.isNil = true
      · rw [if_pos hv, rawset_nil hv hnew]
        exact ih (i + 1) next fun pair hpair j hj => hnext pair hpair j (by omega)
      · rw [if_neg hv, rawset_new (Bool.eq_false_iff.mpr hv) hnew, ih, List.append_assoc,
          List.singleton_append]
        intro pair hpair j hj
        rcases List.mem_append.mp hpair with hpair | hpair
        · exact hnext pair hpair j (by omega)
        · rw [List.mem_singleton.mp hpair]
          simp only [Value.sameKey, decide_eq_false_iff_not]
          omega

end Tables

/-! ## Bytes -/

section Bytes

theorem rbRead_append (bytes rest : List UInt8) :
    rbRead (bytes ++ rest) bytes.length = some (bytes, rest) := by
  rw [rbRead, if_neg (by simp), List.take_left, List.drop_left]

theorem rbRead_one (byte : UInt8) (rest : List UInt8) :
    rbRead (byte :: rest) 1 = some ([byte], rest) :=
  rbRead_append [byte] rest

theorem rbRead_ofNatLe (n value : Nat) (rest : List UInt8) :
    rbRead (Bytes.ofNatLe n value ++ rest) n = some (Bytes.ofNatLe n value, rest) := by
  have h := rbRead_append (Bytes.ofNatLe n value) rest
  rwa [Bytes.length_ofNatLe] at h

/-- The type and the cookie share a byte. -/
theorem combineType_type : ∀ type < 8, ∀ cookie < 32,
    Bytes.toNatLe [combineType type cookie] &&& 7 = type ∧
      Bytes.toNatLe [combineType type cookie] >>> 3 = cookie := by
  decide

/-- A signed number of `n` bytes is read back. -/
theorem toInt_intBytes {n : Nat} {v : Int} (hlow : -256 ^ n ≤ 2 * v) (hhigh : 2 * v < 256 ^ n) :
    toInt n (WriteBlock.intBytes n v) = v := by
  have hpos : 0 < (256 : Int) ^ n := Int.pow_pos (by decide)
  have hcast : ((256 ^ n : Nat) : Int) = (256 : Int) ^ n := by push_cast; rfl
  have hmod : 0 ≤ v % 256 ^ n := Int.emod_nonneg _ hpos.ne'
  have hlt : v % 256 ^ n < 256 ^ n := Int.emod_lt_of_pos _ hpos
  have hvalue : Bytes.toNatLe (WriteBlock.intBytes n v) = (v % 256 ^ n).toNat := by
    rw [WriteBlock.intBytes, Bytes.toNatLe_ofNatLe, Nat.mod_eq_of_lt (by omega)]
  rw [toInt, hvalue]
  rcases Int.lt_or_le v 0 with hneg | hneg
  · have hv : v % 256 ^ n = v + 256 ^ n := by
      rw [← Int.add_emod_right, Int.emod_eq_of_lt (by omega) (by omega)]
    rw [if_neg (by omega)]
    omega
  · have hv : v % 256 ^ n = v := Int.emod_eq_of_lt hneg (by omega)
    rw [if_pos (by omega)]
    omega

/-- So is one without a sign. -/
theorem toNatLe_intBytes {n : Nat} {v : Int} (hlow : 0 ≤ v) (hhigh : v < 256 ^ n) :
    (Bytes.toNatLe (WriteBlock.intBytes n v) : Int) = v := by
  have hcast : ((256 ^ n : Nat) : Int) = (256 : Int) ^ n := by push_cast; rfl
  rw [WriteBlock.intBytes, Bytes.toNatLe_ofNatLe, Int.emod_eq_of_lt hlow hhigh,
    Nat.mod_eq_of_lt (by omega),
    Int.toNat_of_nonneg hlow]

theorem toNatLe_word {n value : Nat} (h : value < 256 ^ n) :
    Bytes.toNatLe (Bytes.ofNatLe n value) = value := by
  rw [Bytes.toNatLe_ofNatLe, Nat.mod_eq_of_lt h]

theorem getWord_append (value : UInt64) (rest : List UInt8) :
    getWord (Bytes.ofNatLe 8 value.toNat ++ rest) = some (value, rest) := by
  rw [getWord, rbRead_ofNatLe, Option.map_some]
  dsimp only
  rw [toNatLe_word value.toNat_lt, UInt64.ofNat_toNat]

theorem getBuffer_append (str rest : List UInt8) :
    getBuffer (str ++ rest) str.length = some (.string str, rest) := by
  rw [getBuffer, rbRead_append, Option.map_some]

end Bytes

/-! ## Readers -/

/-- The bytes are read as the same value, whatever comes after them. -/
structure Encodes (v : Value) (bytes : List UInt8) : Prop where
  pos : 0 < bytes.length
  read : ∀ (fuel : Nat) (rest : List UInt8), 3 * bytes.length ≤ fuel + 1 →
    ∃ v', unpackOne fuel (bytes ++ rest) = some (v', rest) ∧ Same v v'

/-- The bytes are read as the same values. -/
def EncodesArray (array : List Value) (bytes : List UInt8) : Prop :=
  ∀ (fuel : Nat) (rest : List UInt8), 3 * bytes.length ≤ fuel →
    ∃ array', unpackArray fuel (bytes ++ rest) array.length = some (array', rest) ∧
      List.Forall₂ Same array array'

/-- The bytes are read as the same pairs, behind those of other keys. -/
def EncodesHash (entries : List (Value × Value)) (bytes : List UInt8) : Prop :=
  ∀ (fuel : Nat) (rest : List UInt8) (next : List (Value × Value)), 3 * bytes.length ≤ fuel →
    (∀ pair ∈ next, ∀ entry ∈ entries, pair.1.sameKey entry.1 = false) →
      ∃ next', unpackHash fuel (bytes ++ rest) next = some (next ++ next', rest) ∧
        SamePairs entries next'

section Encodes

theorem unpackOne_cons {type cookie : Nat} (htype : type < 8) (hcookie : cookie < 32) (fuel : Nat)
    (rest : List UInt8) :
    unpackOne (fuel + 1) (combineType type cookie :: rest) = pushValue fuel rest type cookie := by
  obtain ⟨htype, hcookie⟩ := combineType_type type htype cookie hcookie
  rw [unpackOne, rbRead_one, Option.bind_some]
  dsimp only
  rw [htype, hcookie]

theorem encodes_leaf {v : Value} (type cookie : Nat) {tail : List UInt8}
    (hleaf : ∀ array next, v ≠ .table array next)
    (htype : type < 8) (hcookie : cookie < 32)
    (hread : ∀ (fuel : Nat) (rest : List UInt8), pushValue (fuel + 1) (tail ++ rest) type cookie =
      some (v, rest)) :
    Encodes v (combineType type cookie :: tail) where
  pos := Nat.succ_pos _
  read := by
    intro fuel rest hfuel
    rw [List.length_cons] at hfuel
    obtain ⟨fuel, rfl⟩ := Nat.exists_eq_add_of_le' (show 2 ≤ fuel by omega)
    exact ⟨v, by rw [List.cons_append, unpackOne_cons htype hcookie, hread], .leaf v hleaf⟩

theorem encodes_nil : Encodes .nil [UInt8.ofNat typeNil] :=
  encodes_leaf typeNil 0 (by simp) (by decide) (by decide) fun _ _ => by
    rw [pushValue, if_pos rfl, List.nil_append]

variable (b : WriteBlock)

/-- An integer, with the byte of its width before it. -/
theorem wbInteger_reads {v : Int} (hlow : -2 ^ 63 ≤ v) (hhigh : v < 2 ^ 63) :
    ∃ cookie tail, (b.wbInteger v).bytes = b.bytes ++ combineType typeNumber cookie :: tail ∧
      cookie < typeNumberReal ∧ ∀ rest, getInteger (tail ++ rest) cookie = some (v, rest) := by
  have hcut : ∀ n rest, rbRead (WriteBlock.intBytes n v ++ rest) n =
      some (WriteBlock.intBytes n v, rest) :=
    fun n rest => rbRead_ofNatLe n _ rest
  unfold WriteBlock.wbInteger
  split_ifs with hzero hwide hneg hbyte hword
  · exact ⟨typeNumberZero,
      [], by simp, by decide, fun rest => by rw [hzero, getInteger, if_pos rfl, List.nil_append]⟩
  · refine ⟨typeNumberQword, WriteBlock.intBytes 8 v, by simp, by decide, fun rest => ?_⟩
    simp [getInteger, hcut, toInt_intBytes (n := 8) (v := v) (by omega) (by omega)]
  · refine ⟨typeNumberDword, WriteBlock.intBytes 4 v, by simp, by decide, fun rest => ?_⟩
    simp [getInteger, hcut, toInt_intBytes (n := 4) (v := v) (by omega) (by omega)]
  · refine ⟨typeNumberByte, WriteBlock.intBytes 1 v, by simp, by decide, fun rest => ?_⟩
    simp [getInteger, hcut, toNatLe_intBytes (n := 1) (v := v) (by omega) (by omega)]
  · refine ⟨typeNumberWord, WriteBlock.intBytes 2 v, by simp, by decide, fun rest => ?_⟩
    simp [getInteger, hcut, toNatLe_intBytes (n := 2) (v := v) (by omega) (by omega)]
  · refine ⟨typeNumberDword, WriteBlock.intBytes 4 v, by simp, by decide, fun rest => ?_⟩
    simp [getInteger, hcut, toInt_intBytes (n := 4) (v := v) (by omega) (by omega)]

theorem wbString_encodes {str : List UInt8} (hlen : str.length < 2 ^ 31) :
    ∃ bytes, (b.wbString str).bytes = b.bytes ++ bytes ∧ Encodes (.string str) bytes := by
  unfold WriteBlock.wbString
  split_ifs with hshort hpos hword
  · refine ⟨combineType typeShortString str.length ::
      str, by simp, encodes_leaf _ _ (by simp) (by decide) hshort ?_⟩
    intro fuel rest
    simp [pushValue, getBuffer_append]
  · have hnil : str = [] := List.length_eq_zero_iff.mp (by omega)
    refine ⟨[combineType typeShortString
      str.length], by simp, encodes_leaf _ _ (by simp) (by decide) hshort ?_⟩
    intro fuel rest
    have h := getBuffer_append str rest
    rw [hnil] at h ⊢
    simpa [pushValue] using h
  · refine ⟨combineType typeLongString 2 :: (Bytes.ofNatLe 2 str.length ++ str), by simp,
      encodes_leaf _ _ (by simp) (by decide) (by decide) ?_⟩
    intro fuel rest
    have hlength : Bytes.toNatLe (Bytes.ofNatLe 2 str.length) = str.length :=
      toNatLe_word (by omega)
    simp [pushValue, rbRead_ofNatLe, hlength, getBuffer_append]
  · refine ⟨combineType typeLongString 4 :: (Bytes.ofNatLe 4 str.length ++ str), by simp,
      encodes_leaf _ _ (by simp) (by decide) (by decide) ?_⟩
    intro fuel rest
    have hlength : Bytes.toNatLe (Bytes.ofNatLe 4 str.length) = str.length :=
      toNatLe_word (by omega)
    simp [pushValue, rbRead_ofNatLe, hlength, getBuffer_append]

/-- The size of the array part, in the cookie or behind it. -/
theorem wbTableHead_reads {arraySize : Nat} (hsize : arraySize < 2 ^ 31) :
    ∃ cookie tail, (b.wbTableHead arraySize).bytes =
    b.bytes ++ combineType typeTable cookie :: tail ∧
      cookie < maxCookie ∧ ∀ rest, getArraySize (tail ++ rest) cookie =
      some (↑arraySize, rest) := by
  unfold WriteBlock.wbTableHead
  split_ifs with hlarge
  · obtain ⟨cookie, tail, hbytes, hcookie, hread⟩ :=
      wbInteger_reads (b.push [combineType typeTable (maxCookie - 1)]) (v := arraySize)
        (by omega) (by omega)
    refine ⟨maxCookie - 1, combineType typeNumber cookie :: tail, ?_, by decide, fun rest => ?_⟩
    · rw [hbytes, WriteBlock.bytes_push, List.append_assoc, List.singleton_append]
    · obtain ⟨htype, hvalue⟩ :=
        combineType_type typeNumber (by decide) cookie (hcookie.trans (by decide))
      rw [getArraySize, if_pos rfl, List.cons_append, rbRead_one, Option.bind_some]
      dsimp only
      rw [htype, hvalue, if_neg (by simp [hcookie.ne]), hread]
  · refine ⟨arraySize, [], by simp, by omega, fun rest => ?_⟩
    rw [getArraySize, if_neg (by omega), List.nil_append]

end Encodes

section Containers

variable {array : List Value} {entries next : List (Value × Value)} {v key value : Value}
  {bytes bytes' bytes'' : List UInt8}

theorem encodesArray_nil : EncodesArray [] [] := by
  intro fuel rest _
  exact ⟨[], by rw [List.length_nil, unpackArray, List.nil_append], .nil⟩

theorem EncodesArray.cons (harray : EncodesArray array bytes') (hv : Encodes v bytes) :
    EncodesArray (v :: array) (bytes ++ bytes') := by
  intro fuel rest hfuel
  have hpos := hv.pos
  rw [List.length_append] at hfuel
  obtain ⟨fuel, rfl⟩ := Nat.exists_eq_add_of_le' (show 1 ≤ fuel by omega)
  obtain ⟨v', hread, hsame⟩ := hv.read fuel (bytes' ++ rest) (by omega)
  obtain ⟨array', hrest, hall⟩ := harray fuel rest (by omega)
  refine ⟨v' :: array', ?_, .cons hsame hall⟩
  rw [List.append_assoc, List.length_cons, unpackArray, hread, Option.bind_some]
  dsimp only
  rw [hrest, Option.map_some]

theorem encodesHash_nil : EncodesHash [] [UInt8.ofNat typeNil] := by
  intro fuel rest next hfuel _
  rw [List.length_singleton] at hfuel
  obtain ⟨fuel, rfl⟩ := Nat.exists_eq_add_of_le' (show 1 ≤ fuel by omega)
  obtain ⟨v', hread, hsame⟩ := encodes_nil.read fuel rest (by rw [List.length_singleton]; omega)
  refine ⟨[], ?_, .nil⟩
  rw [unpackHash, hread, Option.bind_some]
  dsimp only
  rw [hsame.isNil, Value.isNil, if_pos rfl, List.append_nil]

theorem EncodesHash.cons (hkey : Encodes key bytes) (hvalue : Encodes value bytes')
    (hentries : EncodesHash entries bytes'') (hkeyNil : key.isNil = false)
    (hvalueNil : value.isNil = false)
    (honce : ∀ entry ∈ entries, key.sameKey entry.1 = false) :
    EncodesHash ((key, value) :: entries) (bytes ++ (bytes' ++ bytes'')) := by
  intro fuel rest next hfuel hnew
  have hpos := hkey.pos
  rw [List.length_append, List.length_append] at hfuel
  obtain ⟨fuel, rfl⟩ := Nat.exists_eq_add_of_le' (show 1 ≤ fuel by omega)
  obtain ⟨key', hreadKey, hsameKey⟩ := hkey.read fuel (bytes' ++ (bytes'' ++ rest)) (by omega)
  obtain ⟨value', hreadValue, hsameValue⟩ := hvalue.read fuel (bytes'' ++ rest) (by omega)
  have hset : rawset next key' value' = next ++ [(key', value')] := by
    refine rawset_new (by rw [hsameValue.isNil, hvalueNil]) fun pair hpair => ?_
    rw [hsameKey.sameKey_right]
    exact hnew pair hpair (key, value) List.mem_cons_self
  obtain ⟨next', hrest, hall⟩ := hentries fuel rest (next ++ [(key', value')]) (by omega) (by
    intro pair hpair entry hentry
    rcases List.mem_append.mp hpair with hpair | hpair
    · exact hnew pair hpair entry (List.mem_cons_of_mem _ hentry)
    · rw [List.mem_singleton.mp hpair, hsameKey.sameKey_left]
      exact honce entry hentry)
  refine ⟨(key', value') :: next', ?_, .cons ⟨hsameKey, hsameValue⟩ hall⟩
  rw [List.append_assoc, List.append_assoc, unpackHash, hreadKey, Option.bind_some]
  dsimp only
  rw [hsameKey.isNil, hkeyNil, if_neg Bool.false_ne_true, hreadValue, Option.bind_some]
  dsimp only
  rw [hset, hrest, List.append_assoc, List.singleton_append]

/-- No key behind the array part is one of the array part. -/
theorem arrayEntries_new {array array' : List Value} (hlen : array'.length = array.length)
    {pair entry : Value × Value}
    (hpair : pair ∈ arrayEntries 1 array') (hentry : entry ∈ hashEntries array.length next) :
    pair.1.sameKey entry.1 = false := by
  obtain ⟨j, hlow, hhigh, hkey⟩ := mem_arrayEntries hpair
  have hout : entry.1.inArray array.length = false := by
    simpa using (List.mem_filter.mp hentry).2
  rw [hkey]
  rcases entry with ⟨key, _⟩
  cases key with
  | integer i =>
      simp only [Value.inArray, decide_eq_false_iff_not] at hout
      simp only [Value.sameKey, decide_eq_false_iff_not]
      omega
  | _ => rfl

theorem TableOk.order (htable : TableOk array next) :
    next.Perm (arrayEntries 1 array ++ hashEntries array.length next) :=
  (List.filter_append_perm (fun pair : Value × Value => pair.1.inArray array.length)
    next).symm.trans
    (htable.part.append_right _)

theorem encodes_table {cookie : Nat} {tail : List UInt8} (htable : TableOk array next)
    (hcookie : cookie < maxCookie)
    (hsize : ∀ rest, getArraySize (tail ++ rest) cookie = some (↑array.length, rest))
    (harray : EncodesArray array bytes)
    (hhash : EncodesHash (hashEntries array.length next) bytes') :
    Encodes (.table array next) (combineType typeTable cookie :: tail ++ (bytes ++ bytes')) where
  pos := Nat.succ_pos _
  read := by
    intro fuel rest hfuel
    rw [List.length_append, List.length_cons, List.length_append] at hfuel
    obtain ⟨fuel, rfl⟩ := Nat.exists_eq_add_of_le' (show 2 ≤ fuel by omega)
    obtain ⟨array', hreadArray, hsameArray⟩ := harray fuel (bytes' ++ rest) (by omega)
    obtain ⟨next', hreadHash, hsameHash⟩ :=
      hhash fuel rest (arrayEntries 1 array') (by omega) fun pair hpair entry =>
      arrayEntries_new hsameArray.length_eq.symm hpair
    have hpairs : SamePairs (arrayEntries 1 array ++ hashEntries array.length next)
        (arrayEntries 1 array' ++ next') :=
      List.rel_append (samePairs_arrayEntries hsameArray 1) hsameHash
    refine ⟨.table array' (arrayEntries 1 array' ++ next'), ?_,
      .table hsameArray htable.order hpairs.key hpairs.value⟩
    have hset : setArray 1 array' [] = arrayEntries 1 array' := setArray_eq array' 1 [] (by simp)
    rw [List.cons_append, List.cons_append, unpackOne_cons (by decide) hcookie, List.append_assoc,
      List.append_assoc,
      pushValue, hsize]
    simp [hreadArray, hset, hreadHash]

end Containers

/-! ## Packing -/

section Packing

theorem bind_eq_ok {α β : Type} {x : Except String α} {f : α → Except String β} {b : β} :
    x >>= f = .ok b ↔ ∃ a, x = .ok a ∧ f a = .ok b := by
  cases x with
  | error e =>
      constructor
      · intro h
        cases h
      · rintro ⟨_, h, _⟩
        cases h
  | ok a =>
      constructor
      · intro h
        exact ⟨a, rfl, h⟩
      · rintro ⟨_, ha, h⟩
        cases ha
        exact h

/-- What `packOne` writes for the value, at any depth it takes it. -/
def Packs (v : Value) : Prop :=
  ∀ (depth : Nat) (b b' : WriteBlock), packOne depth v b = .ok b' →
    ∃ bytes, b'.bytes = b.bytes ++ bytes ∧ Encodes v bytes

theorem packArray_encodes {array : List Value} (harray : ∀ v ∈ array, Packs v) {depth : Nat}
    {b b' : WriteBlock}
    (h : packArray depth array b = .ok b') :
    ∃ bytes, b'.bytes = b.bytes ++ bytes ∧ EncodesArray array bytes := by
  induction array generalizing b with
  | nil =>
      cases h
      exact ⟨[], (List.append_nil _).symm, encodesArray_nil⟩
  | cons v array ih =>
      rw [packArray] at h
      obtain ⟨between, hv, h⟩ := bind_eq_ok.mp h
      obtain ⟨bytes, hbytes, hencodes⟩ := harray v List.mem_cons_self depth b between hv
      obtain ⟨bytes', hbytes', hencodes'⟩ := ih (fun v hv => harray v (List.mem_cons_of_mem _ hv)) h
      exact ⟨bytes ++ bytes', by rw [hbytes', hbytes, List.append_assoc], hencodes'.cons hencodes⟩

theorem packHash_encodes {next : List (Value × Value)}
    (hnext : ∀ pair ∈ next, Packs pair.1 ∧ Packs pair.2)
    (hkey : ∀ pair ∈ next, pair.1.isNil = false) (hvalue : ∀ pair ∈ next, pair.2.isNil = false)
    (honce : next.Pairwise fun pair pair' => pair.1.sameKey pair'.1 = false) {depth arraySize : Nat}
    {b b' : WriteBlock} (h : packHash depth arraySize next b = .ok b') :
    ∃ bytes, b'.bytes = b.bytes ++ bytes ∧ EncodesHash (hashEntries arraySize next) bytes := by
  induction next generalizing b with
  | nil =>
      cases h
      exact ⟨[UInt8.ofNat typeNil], b.bytes_push _, encodesHash_nil⟩
  | cons pair next ih =>
      obtain ⟨key, value⟩ := pair
      obtain ⟨⟨hpackKey, hpackValue⟩, hnext⟩ := List.forall_mem_cons.mp hnext
      obtain ⟨hkeyNil, hkey⟩ := List.forall_mem_cons.mp hkey
      obtain ⟨hvalueNil, hvalue⟩ := List.forall_mem_cons.mp hvalue
      obtain ⟨hfirst, honce⟩ := List.pairwise_cons.mp honce
      rw [packHash] at h
      by_cases hin : key.inArray arraySize = true
      · rw [if_pos hin] at h
        obtain ⟨bytes, hbytes, hencodes⟩ := ih hnext hkey hvalue honce h
        exact ⟨bytes, hbytes, by rwa [hashEntries, List.filter_cons_of_neg (by simp [hin])]⟩
      · rw [if_neg hin] at h
        obtain ⟨b₁, hb₁, h⟩ := bind_eq_ok.mp h
        obtain ⟨b₂, hb₂, h⟩ := bind_eq_ok.mp h
        obtain ⟨bytes, hbytes, hencodes⟩ := hpackKey depth b b₁ hb₁
        obtain ⟨bytes', hbytes', hencodes'⟩ := hpackValue depth b₁ b₂ hb₂
        obtain ⟨bytes'', hbytes'', hencodes''⟩ := ih hnext hkey hvalue honce h
        refine ⟨bytes ++ (bytes' ++ bytes''), ?_, ?_⟩
        · rw [hbytes'', hbytes', hbytes, List.append_assoc, List.append_assoc]
        · rw [hashEntries, List.filter_cons_of_pos (by simp [hin])]
          exact .cons hencodes hencodes' hencodes'' hkeyNil hvalueNil fun entry hentry =>
            hfirst entry (List.mem_filter.mp hentry).1

theorem packOne_encodes (v : Value) (hv : v.Ok) : Packs v := by
  induction v using Value.induction with
  | leaf v hleaf =>
      intro depth b b' h
      rw [packOne.eq_def] at h
      split_ifs at h with hdepth
      cases hv with
      | nil =>
          cases h
          exact ⟨_, b.bytes_push _, encodes_nil⟩
      | boolean x =>
          cases h
          refine ⟨_, b.bytes_push _, encodes_leaf _ _ hleaf (by decide)
            (by split_ifs <;> decide) ?_⟩
          intro fuel rest
          cases x <;> simp [pushValue]
      | integer hlow hhigh =>
          cases h
          obtain ⟨cookie, tail, hbytes, hcookie, hread⟩ := wbInteger_reads b hlow hhigh
          refine ⟨_, hbytes, encodes_leaf _ _ hleaf (by decide) (hcookie.trans (by decide)) ?_⟩
          intro fuel rest
          simp [pushValue, hcookie.ne, hread]
      | number bits =>
          cases h
          refine ⟨combineType typeNumber typeNumberReal ::
            Bytes.ofNatLe 8 bits.toNat, by simp [WriteBlock.wbReal],
            encodes_leaf _ _ hleaf (by decide) (by decide) ?_⟩
          intro fuel rest
          simp [pushValue, getWord_append]
      | pointer p =>
          cases h
          refine ⟨combineType typeUserdata 0 :: Bytes.ofNatLe 8 p.toNat, ?_,
            encodes_leaf _ _ hleaf (by decide) (by decide) ?_⟩
          · simp [WriteBlock.wbPointer, combineType]
          · intro fuel rest
            simp [pushValue, getWord_append]
      | string hlen =>
          cases h
          exact wbString_encodes b hlen
      | table => exact absurd rfl (hleaf _ _)
      | unsupported => cases h
  | table array next iharray ihnext =>
      intro depth b b' h
      rw [packOne] at h
      split_ifs at h with hdepth
      obtain ⟨between, hbetween, h⟩ := bind_eq_ok.mp h
      cases hv with
      | table htable harray hkey hvalue =>
          obtain ⟨cookie, tail, hbytes, hcookie, hsize⟩ := wbTableHead_reads b htable.size
          obtain ⟨bytes, hbytes', hencodes⟩ :=
            packArray_encodes (fun v hv => iharray v hv (harray v hv)) hbetween
          obtain ⟨bytes', hbytes'', hencodes'⟩ := packHash_encodes
            (fun pair hpair => ⟨(ihnext pair hpair).1 (hkey pair hpair),
              (ihnext pair hpair).2 (hvalue pair hpair)⟩)
            htable.key htable.value htable.once h
          refine ⟨_, ?_, encodes_table htable hcookie hsize hencodes hencodes'⟩
          rw [hbytes'', hbytes', hbytes, List.append_assoc, List.append_assoc]

end Packing

/-! ## What is refused -/

section Fits

/-- The values that can be packed at a depth: nothing that is not data, and not too many tables in
each other. -/
inductive Value.Fits : Nat → Value → Prop where
  | leaf {depth : Nat} {v : Value} (hdepth : depth ≤ maxDepth) (hleaf : ∀ array next, v ≠
        .table array next)
      (hdata : ∀ typename, v ≠ .unsupported typename) : Fits depth v
  | table {depth : Nat} {array : List Value} {next : List (Value × Value)}
      (hdepth : depth ≤ maxDepth)
      (harray : ∀ v ∈ array, Fits (depth + 1) v)
      (hkey : ∀ pair ∈ hashEntries array.length next, Fits (depth + 1) pair.1)
      (hvalue : ∀ pair ∈ hashEntries array.length next, Fits (depth + 1) pair.2) :
        Fits depth (.table array next)

/-- Whether `packOne` takes the value, whatever was written before. -/
def Takes (v : Value) : Prop :=
  ∀ (depth : Nat) (b : WriteBlock), (∃ b', packOne depth v b = .ok b') ↔ v.Fits depth

theorem packArray_ok_iff {array : List Value} (harray : ∀ v ∈ array, Takes v) (depth : Nat)
    (b : WriteBlock) :
    (∃ b', packArray depth array b = .ok b') ↔ ∀ v ∈ array, v.Fits depth := by
  induction array generalizing b with
  | nil => simp [packArray]
  | cons v array ih =>
      obtain ⟨hv, harray⟩ := List.forall_mem_cons.mp harray
      simp only [packArray, bind_eq_ok, List.forall_mem_cons]
      constructor
      · rintro ⟨b', between, hbetween, h⟩
        exact ⟨(hv depth b).mp ⟨between, hbetween⟩, (ih harray between).mp ⟨b', h⟩⟩
      · rintro ⟨hfits, hrest⟩
        obtain ⟨between, hbetween⟩ := (hv depth b).mpr hfits
        obtain ⟨b', h⟩ := (ih harray between).mpr hrest
        exact ⟨b', between, hbetween, h⟩

theorem packHash_ok_iff {next : List (Value × Value)}
    (hnext : ∀ pair ∈ next, Takes pair.1 ∧ Takes pair.2)
    (depth arraySize : Nat) (b : WriteBlock) :
    (∃ b', packHash depth arraySize next b = .ok b') ↔
      ∀ pair ∈ hashEntries arraySize next, pair.1.Fits depth ∧ pair.2.Fits depth := by
  induction next generalizing b with
  | nil => simp [packHash, hashEntries]
  | cons pair next ih =>
      obtain ⟨key, value⟩ := pair
      obtain ⟨⟨htakeKey, htakeValue⟩, hnext⟩ := List.forall_mem_cons.mp hnext
      rw [packHash, hashEntries]
      by_cases hin : key.inArray arraySize = true
      · rw [if_pos hin, List.filter_cons_of_neg (by simp [hin])]
        exact ih hnext b
      · rw [if_neg hin, List.filter_cons_of_pos (by simp [hin])]
        simp only [bind_eq_ok, List.forall_mem_cons]
        constructor
        · rintro ⟨b', b₁, hb₁, b₂, hb₂, h⟩
          exact ⟨⟨(htakeKey depth b).mp ⟨b₁, hb₁⟩, (htakeValue depth b₁).mp ⟨b₂, hb₂⟩⟩,
            (ih hnext b₂).mp ⟨b', h⟩⟩
        · rintro ⟨⟨hkey, hvalue⟩, hrest⟩
          obtain ⟨b₁, hb₁⟩ := (htakeKey depth b).mpr hkey
          obtain ⟨b₂, hb₂⟩ := (htakeValue depth b₁).mpr hvalue
          obtain ⟨b', h⟩ := (ih hnext b₂).mpr hrest
          exact ⟨b', b₁, hb₁, b₂, hb₂, h⟩

theorem packOne_ok_iff (v : Value) : Takes v := by
  induction v using Value.induction with
  | leaf v hleaf =>
      intro depth b
      rw [packOne.eq_def]
      constructor
      · rintro ⟨b', h⟩
        split_ifs at h with hdepth
        refine .leaf (Nat.le_of_not_lt hdepth) hleaf fun typename hv => ?_
        rw [hv] at h
        cases h
      · intro h
        cases h with
        | table => exact absurd rfl (hleaf _ _)
        | leaf hdepth _ hdata =>
            rw [if_neg (Nat.not_lt.mpr hdepth)]
            cases v with
            | table => exact absurd rfl (hleaf _ _)
            | unsupported => exact absurd rfl (hdata _)
            | _ => exact ⟨_, rfl⟩
  | table array next iharray ihnext =>
      intro depth b
      rw [packOne]
      constructor
      · rintro ⟨b', h⟩
        split_ifs at h with hdepth
        obtain ⟨between, hbetween, h⟩ := bind_eq_ok.mp h
        have hnext := (packHash_ok_iff ihnext (depth + 1) array.length between).mp ⟨b', h⟩
        exact .table (Nat.le_of_not_lt hdepth)
          ((packArray_ok_iff iharray (depth + 1) _).mp ⟨between, hbetween⟩)
          (fun pair hpair => (hnext pair hpair).1) fun pair hpair => (hnext pair hpair).2
      · intro h
        cases h with
        | leaf _ hleaf => exact absurd rfl (hleaf _ _)
        | table hdepth harray hkey hvalue =>
            rw [if_neg (Nat.not_lt.mpr hdepth)]
            obtain ⟨between, hbetween⟩ :=
              (packArray_ok_iff iharray (depth + 1) (b.wbTableHead array.length)).mpr harray
            obtain ⟨b', h⟩ :=
              (packHash_ok_iff ihnext (depth + 1) array.length between).mpr fun pair hpair =>
              ⟨hkey pair hpair, hvalue pair hpair⟩
            exact ⟨b', bind_eq_ok.mpr ⟨between, hbetween, h⟩⟩

end Fits

/-! ## All the values of a call -/

section All

theorem packFrom_ok_iff (vs : List Value) (b : WriteBlock) :
    (∃ b', packFrom vs b = .ok b') ↔ ∀ v ∈ vs, v.Fits 0 := by
  induction vs generalizing b with
  | nil => simp [packFrom]
  | cons v vs ih =>
      simp only [packFrom, bind_eq_ok, List.forall_mem_cons]
      constructor
      · rintro ⟨b', between, hbetween, h⟩
        exact ⟨(packOne_ok_iff v 0 b).mp ⟨between, hbetween⟩, (ih between).mp ⟨b', h⟩⟩
      · rintro ⟨hfits, hrest⟩
        obtain ⟨between, hbetween⟩ := (packOne_ok_iff v 0 b).mpr hfits
        obtain ⟨b', h⟩ := (ih between).mpr hrest
        exact ⟨b', between, hbetween, h⟩

theorem unpackFrom_append {v : Value} {vs : List Value} {bytes bytes' : List UInt8}
    (hv : Encodes v bytes)
    (hvs : ∀ fuel, 3 * bytes'.length ≤ fuel → ∃ vs', unpackFrom fuel bytes' = some vs' ∧
      List.Forall₂ Same vs vs')
    {fuel : Nat} (hfuel : 3 * (bytes ++ bytes').length ≤ fuel) :
    ∃ vs', unpackFrom fuel (bytes ++ bytes') = some vs' ∧ List.Forall₂ Same (v :: vs) vs' := by
  have hpos := hv.pos
  rw [List.length_append] at hfuel
  obtain ⟨fuel, rfl⟩ := Nat.exists_eq_add_of_le' (show 1 ≤ fuel by omega)
  obtain ⟨v', hread, hsame⟩ := hv.read fuel bytes' (by omega)
  obtain ⟨vs', hrest, hall⟩ := hvs fuel (by omega)
  obtain ⟨byte, bytes, rfl⟩ := List.exists_cons_of_length_pos hpos
  refine ⟨v' :: vs', ?_, .cons hsame hall⟩
  rw [List.cons_append] at hread ⊢
  rw [unpackFrom.eq_3 _ _ (List.cons_ne_nil _ _), hread, Option.bind_some]
  dsimp only
  rw [hrest, Option.map_some]

theorem unpackFrom_packFrom {vs : List Value} (hvs : ∀ v ∈ vs, v.Ok) {b b' : WriteBlock}
    (h : packFrom vs b = .ok b') :
    ∃ bytes, b'.bytes = b.bytes ++ bytes ∧ ∀ fuel, 3 * bytes.length ≤ fuel →
      ∃ vs', unpackFrom fuel bytes = some vs' ∧ List.Forall₂ Same vs vs' := by
  induction vs generalizing b with
  | nil =>
      cases h
      exact ⟨[], (List.append_nil _).symm, fun fuel _ => ⟨[], by rw [unpackFrom], .nil⟩⟩
  | cons v vs ih =>
      obtain ⟨hv, hvs⟩ := List.forall_mem_cons.mp hvs
      rw [packFrom] at h
      obtain ⟨between, hbetween, h⟩ := bind_eq_ok.mp h
      obtain ⟨bytes, hbytes, hencodes⟩ := packOne_encodes v hv 0 b between hbetween
      obtain ⟨bytes', hbytes', hrest⟩ := ih hvs h
      exact ⟨bytes ++ bytes', by rw [hbytes', hbytes, List.append_assoc], fun fuel hfuel =>
        unpackFrom_append hencodes hrest hfuel⟩

end All

end SdyServer.Seri
