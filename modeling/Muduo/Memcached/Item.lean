import Muduo.Base.Code
import Muduo.Base.LogStream

/-!
# Items

`Item` of `memcached/server/Item.{h,cc}`: a key and a value in one block of memory, filled from the
front as the bytes arrive. The value ends with CRLF. An item that has been built satisfies the
assertions of its constructor.
-/

namespace Muduo.Memcached

open Machine

/-- `Item::UpdatePolicy`. -/
inductive UpdatePolicy where
  | kInvalid
  | kSet
  | kAdd
  | kReplace
  | kAppend
  | kPrepend
  | kCas
  deriving DecidableEq, Repr

structure Item where
  keylen : ℕ
  flags : UInt32
  relExptime : ℤ
  valuelen : ℕ
  cas : ℕ
  /-- The first `receivedBytes_` bytes of the block. -/
  data : List UInt8
  two_le_valuelen : 2 ≤ valuelen
  keylen_le : keylen ≤ data.length
  data_le : data.length ≤ keylen + valuelen
  total_lt : keylen + valuelen < 2 ^ 31

namespace Item

/-- The constructor. `totalLen()` is an `int`: where the sum of the two lengths overflows it is
negative, and the second assertion fails. -/
def makeItem (keyArg : List UInt8) (flagsArg : UInt32) (exptimeArg valuelen : ℤ) (casArg : ℕ) :
    Code Item :=
  if hv : 2 ≤ valuelen then
    if ht : keyArg.length + valuelen < 2 ^ 31 then
      return {
        keylen := keyArg.length
        flags := flagsArg
        relExptime := exptimeArg
        valuelen := valuelen.toNat
        cas := casArg
        data := keyArg
        two_le_valuelen := by omega
        keylen_le := le_refl _
        data_le := by omega
        total_lt := by omega }
    else
      .error (.failed .itemTotalLen)
  else
    .error (.failed .itemValueLen)

def totalLen (item : Item) : ℕ := item.keylen + item.valuelen

def key (item : Item) : List UInt8 := item.data.take item.keylen

/-- The bytes of the value that have been received. -/
def value (item : Item) : List UInt8 := item.data.drop item.keylen

def neededBytes (item : Item) : ℕ := item.totalLen - item.data.length

def setCas (item : Item) (casArg : ℕ) : Item := { item with cas := casArg }

def append (item : Item) (data : List UInt8) : Code Item :=
  if h : data.length ≤ item.neededBytes then
    return { item with
      data := item.data ++ data
      keylen_le := by have := item.keylen_le; rw [List.length_append]; omega
      data_le := by
        have := item.data_le
        unfold neededBytes totalLen at h
        rw [List.length_append]
        omega }
  else
    .error (.failed .itemAppend)

def endsWithCRLF (item : Item) : Bool :=
  item.data.length = item.totalLen ∧ item.data[item.totalLen - 2]? = some 13 ∧
    item.data[item.totalLen - 1]? = some 10

/-- What `output` appends to its buffer. -/
def output (item : Item) (needCas : Bool) : List UInt8 :=
  let buf := LogStream.append [] (ascii " ")
  let buf := LogStream.formatInteger buf item.flags.toNat
  let buf := LogStream.append buf (ascii " ")
  let buf := LogStream.formatInteger buf (item.valuelen - 2)
  let buf :=
    if needCas then LogStream.formatInteger (LogStream.append buf (ascii " ")) item.cas else buf
  let buf := LogStream.append buf (ascii "\r\n")
  ascii "VALUE " ++ item.key ++ buf ++ item.value.take item.valuelen

/-- The block of the item that this is called for was made for a key of 250 bytes. -/
def resetKey (item : Item) (k : List UInt8) : Code Item :=
  if h : k.length ≤ 250 then
    if ht : k.length + item.valuelen < 2 ^ 31 then
      return { item with
        keylen := k.length
        data := k
        keylen_le := le_refl _
        data_le := by omega
        total_lt := ht }
    else
      .error (.failed .itemTotalLen)
  else
    .error (.failed .itemResetKey)

/-! ### Keys and values -/

section

variable {item item' : Item}

@[simp] lemma key_setCas (c : ℕ) : (item.setCas c).key = item.key := rfl

@[simp] lemma value_setCas (c : ℕ) : (item.setCas c).value = item.value := rfl

lemma length_value (item : Item) : item.value.length = item.data.length - item.keylen :=
  List.length_drop

/-- All bytes have been received. -/
def Complete (item : Item) : Prop := item.data.length = item.totalLen

lemma neededBytes_eq_zero : item.neededBytes = 0 ↔ item.Complete := by
  have h := item.data_le
  unfold neededBytes Complete totalLen
  omega

lemma neededBytes_eq (item : Item) : item.neededBytes = item.valuelen - item.value.length := by
  have h := item.keylen_le
  rw [neededBytes, totalLen, length_value]
  omega

lemma complete_iff : item.Complete ↔ item.value.length = item.valuelen := by
  have h := item.keylen_le
  rw [Complete, length_value, totalLen]
  omega

/-- The value without its CRLF. -/
def payload (item : Item) : List UInt8 := item.value.take (item.value.length - 2)

lemma eq_take_append_pair {l : List UInt8} {n : ℕ} {a b : UInt8} (h : l.length = n + 2) :
    l = l.take n ++ [a, b] ↔ l[n]? = some a ∧ l[n + 1]? = some b := by
  have hdrop : (l.drop n).length = 2 := by rw [List.length_drop]; omega
  obtain ⟨x, y, hxy⟩ := List.length_eq_two.mp hdrop
  have hx : l[n]? = some x := by
    have := congrArg (·[0]?) hxy
    simpa [List.getElem?_drop] using this
  have hy : l[n + 1]? = some y := by
    have := congrArg (·[1]?) hxy
    simpa [List.getElem?_drop] using this
  have hl : l = l.take n ++ [x, y] := by rw [← hxy, List.take_append_drop]
  rw [hx, hy]
  constructor
  · intro h'
    have := List.append_cancel_left (hl.symm.trans h')
    simpa using this
  · rintro ⟨hxa, hyb⟩
    cases hxa
    cases hyb
    exact hl

/-- What the test of the last two bytes says of the value. -/
lemma endsWithCRLF_iff :
    item.endsWithCRLF = true ↔ item.Complete ∧ item.value = item.payload ++ [13, 10] := by
  have htwo := item.two_le_valuelen
  simp only [endsWithCRLF, decide_eq_true_eq]
  apply and_congr_right
  intro hcomplete
  have hlen : item.value.length = item.valuelen - 2 + 2 := by
    rw [complete_iff.mp hcomplete]
    omega
  have hbyte : ∀ n, item.value[n]? = item.data[item.keylen + n]? := by
    intro n
    rw [value, List.getElem?_drop]
  rw [payload, hlen, Nat.add_sub_cancel, eq_take_append_pair hlen, hbyte, hbyte, totalLen]
  have h2 : item.keylen + item.valuelen - 2 = item.keylen + (item.valuelen - 2) := by omega
  have h1 : item.keylen + item.valuelen - 1 = item.keylen + (item.valuelen - 2 + 1) := by omega
  rw [h2, h1]

lemma endsWithCRLF_of_value {l : List UInt8} (hlen : item.value.length = item.valuelen)
    (h : item.value = l ++ [13, 10]) : item.endsWithCRLF = true ∧ item.payload = l := by
  have hpayload : item.payload = l := by
    rw [payload, h, List.length_append]
    exact List.take_left
  exact ⟨endsWithCRLF_iff.mpr ⟨complete_iff.mpr hlen, hpayload ▸ h⟩, hpayload⟩

/-- What an append keeps, and what it adds. -/
structure Extends (item item' : Item) (data : List UInt8) : Prop where
  key : item'.key = item.key
  value : item'.value = item.value ++ data
  flags : item'.flags = item.flags
  relExptime : item'.relExptime = item.relExptime
  cas : item'.cas = item.cas
  valuelen : item'.valuelen = item.valuelen
  keylen : item'.keylen = item.keylen

/-- Appending within the room that is left. -/
lemma append_spec {data : List UInt8} (h : data.length ≤ item.neededBytes) :
    Yields (item.append data) fun item' => item.Extends item' data := by
  have hkey := item.keylen_le
  rw [append, dif_pos h]
  refine ⟨_, rfl, ?_, ?_, rfl, rfl, rfl, rfl, rfl⟩
  · exact List.take_append_of_le_length hkey
  · exact List.drop_append_of_le_length hkey

lemma append_extends {data : List UInt8} (h : item.append data = .ok item') :
    item.Extends item' data := by
  by_cases hlen : data.length ≤ item.neededBytes
  · exact (append_spec hlen).safe.of_ok h
  · rw [append, dif_neg hlen] at h
    cases h

lemma Extends.neededBytes {data : List UInt8} (h : item.Extends item' data) :
    item'.neededBytes = item.neededBytes - data.length := by
  rw [neededBytes_eq, neededBytes_eq, h.valuelen, h.value, List.length_append]
  omega

/-- Appending a part first and the rest later. -/
lemma append_append {x y : List UInt8} (h : (x ++ y).length ≤ item.neededBytes) :
    ∃ item₁ item₂, item.append x = .ok item₁ ∧ item₁.append y = .ok item₂ ∧
      item.append (x ++ y) = .ok item₂ := by
  rw [List.length_append] at h
  have hx : x.length ≤ item.neededBytes := by omega
  obtain ⟨item₁, h₁, hext⟩ := append_spec hx
  have hroom : y.length ≤ item₁.neededBytes := by
    rw [hext.neededBytes]
    omega
  obtain ⟨item₂, h₂, -⟩ := append_spec hroom
  refine ⟨item₁, item₂, h₁, h₂, ?_⟩
  rw [append, dif_pos hx] at h₁
  cases h₁
  rw [append, dif_pos hroom] at h₂
  cases h₂
  rw [append, dif_pos (by rw [List.length_append]; omega)]
  simp only [List.append_assoc]
  rfl

/-- An item with its key and none of its value. -/
structure Fresh (item : Item) (keyArg : List UInt8) (flagsArg : UInt32) (exptimeArg valuelen : ℤ)
    (casArg : ℕ) : Prop where
  key : item.key = keyArg
  value : item.value = []
  flags : item.flags = flagsArg
  relExptime : item.relExptime = exptimeArg
  cas : item.cas = casArg
  valuelen : item.valuelen = valuelen
  keylen : item.keylen = keyArg.length

section

variable {keyArg : List UInt8} {flagsArg : UInt32} {exptimeArg valuelen : ℤ} {casArg : ℕ}

lemma makeItem_spec (hv : 2 ≤ valuelen) (ht : keyArg.length + valuelen < 2 ^ 31) :
    Yields (makeItem keyArg flagsArg exptimeArg valuelen casArg) fun item =>
      item.Fresh keyArg flagsArg exptimeArg valuelen casArg := by
  rw [makeItem, dif_pos hv, dif_pos ht]
  refine ⟨_, rfl, ?_, ?_, rfl, rfl, rfl, ?_, rfl⟩
  · exact List.take_length
  · exact List.drop_length
  · exact Int.toNat_of_nonneg (by omega)

lemma makeItem_fresh (h : makeItem keyArg flagsArg exptimeArg valuelen casArg = .ok item) :
    item.Fresh keyArg flagsArg exptimeArg valuelen casArg := by
  by_cases hv : 2 ≤ valuelen
  · by_cases ht : keyArg.length + valuelen < 2 ^ 31
    · exact (makeItem_spec hv ht).safe.of_ok h
    · rw [makeItem, dif_pos hv, dif_neg ht] at h
      cases h
  · rw [makeItem, dif_neg hv] at h
    cases h

end

end

end Item
end Muduo.Memcached
