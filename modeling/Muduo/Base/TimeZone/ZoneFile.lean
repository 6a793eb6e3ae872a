import Muduo.Base.TimeZone

/-!
# The zone file

`ZoneFile` is the format of a zone file, with all indices in range. The constructor of `TimeZone`
reports no failure: the zone is valid whatever the file holds, and the lookups rely on what the
reader found.

## Main results

* `loadedOrRejected_iff`: the files that are loaded completely are those of the format.
-/

namespace Muduo

open Machine

namespace TimeZone

open Reader

/-! ### What is loaded -/

/-- Everything that the lookups rely on, and as many entries as the file announces. -/
structure Data.Complete (data : Data) (timecnt typecnt : ℤ) : Prop where
  localtimes_ne_nil : data.localtimes ≠ []
  localtimeIdx : ∀ t ∈ data.transitions,
    0 ≤ t.localtimeIdx ∧ t.localtimeIdx < data.localtimes.length
  arrbIdx : ∀ l ∈ data.localtimes, 0 ≤ l.arrbIdx ∧ l.arrbIdx < data.abbreviation.length
  length_transitions : data.transitions.length = timecnt
  length_localtimes : data.localtimes.length = typecnt

/-- The conversions are defined for every argument. -/
def Zone.Defined (zone : Zone) : Prop :=
  (∀ seconds, Yields (zone.toLocalTime seconds) fun _ => True) ∧
    ∀ tm, Yields (zone.fromLocalTime tm) fun _ => True

namespace Data.Complete

variable {data : Data} {timecnt typecnt : ℤ}

lemma findLocaltime (h : data.Complete timecnt typecnt) (sentry : Transition) (comp : Comp) :
    Yields (data.findLocaltime sentry comp) (· ∈ data.localtimes) := by
  by_cases hhead : (data.transitions.head?.all fun front => comp.less sentry front) = true
  · rw [Data.findLocaltime, if_pos hhead, localtimeFront]
    cases hlocal : data.localtimes with
    | nil => exact absurd hlocal h.localtimes_ne_nil
    | cons l ls => exact ⟨l, rfl, List.mem_cons_self⟩
  · obtain ⟨front, hfront, hle⟩ : ∃ front, data.transitions[0]? = some front ∧
        comp.time front ≤ comp.time sentry := by
      rw [← List.head?_eq_getElem?]
      cases hfront : data.transitions.head? with
      | none => simp [hfront] at hhead
      | some front => exact ⟨front, rfl, by simpa [hfront, Comp.less] using hhead⟩
    obtain ⟨i, t, ht, -, -, hfind⟩ := findLocaltime_eq_localtimeAt hfront hle
    obtain ⟨l, hl, hget⟩ := exists_localtimeAt (h.localtimeIdx t (List.mem_of_getElem? ht))
    exact ⟨l, hfind.trans hl, List.mem_of_getElem? hget⟩

lemma toLocalTime (h : data.Complete timecnt typecnt) (seconds : ℤ) :
    Yields (Zone.toLocalTime ⟨some data⟩ seconds) fun _ => True := by
  obtain ⟨l, hfind, hl⟩ := h.findLocaltime ⟨seconds, 0, 0⟩ ⟨true⟩
  obtain ⟨hnonneg, hlt⟩ := h.arrbIdx l hl
  rw [Zone.toLocalTime, Zone.getData]
  dsimp only
  rw [pure_bind, hfind, ok_bind, check_of ⟨hnonneg, hlt.le⟩]
  exact ⟨_, rfl, trivial⟩

lemma fromLocalTime (h : data.Complete timecnt typecnt) (tm : Tm) :
    Yields (Zone.fromLocalTime ⟨some data⟩ tm) fun _ => True := by
  obtain ⟨l, hfind, -⟩ := h.findLocaltime ⟨0, timegm tm, 0⟩ ⟨false⟩
  obtain ⟨tryTm, htry, -⟩ := h.toLocalTime (timegm tm - l.gmtOffset)
  rw [Zone.fromLocalTime, Zone.getData]
  dsimp only
  rw [pure_bind, hfind, ok_bind, htry, ok_bind]
  split_ifs
  · exact ⟨_, rfl, trivial⟩
  · exact ⟨_, rfl, trivial⟩
  · exact ⟨_, rfl, trivial⟩

lemma defined (h : data.Complete timecnt typecnt) : Zone.Defined ⟨some data⟩ :=
  ⟨h.toLocalTime, h.fromLocalTime⟩

end Data.Complete

/-! ### The format -/

/-- A number of four bytes. -/
def word (w : BitVec 32) : List UInt8 := beBytes 4 w.toNat

lemma length_word (w : BitVec 32) : (word w).length = 4 := length_beBytes 4 _

/-- A local time as the file has it. -/
structure TimeType where
  gmtoff : BitVec 32
  isdst : UInt8
  abbrind : UInt8

namespace TimeType

def bytes (t : TimeType) : List UInt8 := word t.gmtoff ++ [t.isdst, t.abbrind]

def localtime (t : TimeType) : Localtime := ⟨t.gmtoff.toInt, t.isdst ≠ 0, t.abbrind.toNat⟩

end TimeType

/-- The transition at the time `t` to the local time with the index `i`. -/
def transition (localtimes : List Localtime) (t : ℤ) (i : UInt8) : Transition :=
  ⟨t, t + localtimes[i.toNat]?.elim 0 (·.gmtOffset), i.toNat⟩

/-- The data with these transitions behind. -/
def Data.push (data : Data) (ts : List Transition) : Data :=
  { data with transitions := data.transitions ++ ts }

/-- The beginning of a file, with its counts. -/
structure Header where
  version : UInt8
  reserved : List UInt8
  isgmtcnt : BitVec 32
  isstdcnt : BitVec 32
  leapcnt : BitVec 32
  timecnt : BitVec 32
  typecnt : BitVec 32
  charcnt : BitVec 32
  length_reserved : reserved.length = 15

namespace Header

/-- What stands before the counts that are used. -/
def start (h : Header) : List UInt8 :=
  ascii "TZif" ++ [h.version] ++ h.reserved ++ word h.isgmtcnt ++ word h.isstdcnt ++ word h.leapcnt

def bytes (h : Header) : List UInt8 :=
  h.start ++ word h.timecnt ++ word h.typecnt ++ word h.charcnt

lemma length_start (h : Header) : h.start.length = 32 := by
  simp [start, ascii, length_word, h.length_reserved]

def counts (h : Header) : File.Counts := ⟨h.timecnt.toInt, h.typecnt.toInt, h.charcnt.toInt⟩

end Header

structure ZoneFile where
  header : Header
  times : List (BitVec 32)
  indices : List UInt8
  types : List TimeType
  abbreviation : List UInt8
  rest : List UInt8
  length_times : times.length = header.timecnt.toInt
  length_indices : indices.length = times.length
  length_types : types.length = header.typecnt.toInt
  length_abbreviation : abbreviation.length = header.charcnt.toInt
  types_ne_nil : types ≠ []
  indices_lt : ∀ i ∈ indices, i.toNat < types.length
  abbrind_lt : ∀ t ∈ types, t.abbrind.toNat < abbreviation.length

namespace ZoneFile

def bytes (f : ZoneFile) : List UInt8 :=
  f.header.bytes ++ (f.times.flatMap word ++ (f.indices ++ (f.types.flatMap TimeType.bytes ++
    (f.abbreviation ++ f.rest))))

def localtimes (f : ZoneFile) : List Localtime := f.types.map TimeType.localtime

def data (f : ZoneFile) : Data where
  transitions := List.zipWith (transition f.localtimes) (f.times.map BitVec.toInt) f.indices
  localtimes := f.localtimes
  abbreviation := f.abbreviation

lemma complete_data (f : ZoneFile) :
    f.data.Complete f.header.timecnt.toInt f.header.typecnt.toInt where
  localtimes_ne_nil := by simpa [data, localtimes] using f.types_ne_nil
  localtimeIdx t ht := by
    obtain ⟨k, hk, rfl⟩ := List.getElem_of_mem ht
    have hindex := f.indices_lt (f.indices.get ⟨k, by simp [data] at hk; omega⟩) (List.get_mem ..)
    simp only [data, List.getElem_zipWith, transition]
    exact ⟨Int.natCast_nonneg _, by simpa [localtimes] using hindex⟩
  arrbIdx l hl := by
    obtain ⟨t, ht, rfl⟩ := List.mem_map.mp hl
    have := f.abbrind_lt t ht
    exact ⟨Int.natCast_nonneg _, Int.ofNat_lt.mpr this⟩
  length_transitions := by
    rw [← f.length_times]
    simp [data, f.length_indices]
  length_localtimes := by
    rw [← f.length_types]
    simp [data, localtimes]

end ZoneFile

/-! ### The reader and the format -/

namespace File

variable {s s' : Input Data} {u : Unit}

lemma decodes_readInt32 : Decodes readInt32 word BitVec.toInt fun data _ => data := by
  intro s a s'
  rw [readInt32]
  simp only [returns_bind, returns_fread, returns_pure]
  constructor
  · rintro ⟨x, s₁, ⟨hlen, hrest, hdata⟩, rfl, rfl⟩
    refine ⟨_, ?_, rfl, hdata⟩
    have hx := beBytes_byteSwap x
    have hlt : byteSwap 4 (ofLeBytes x) < 2 ^ 32 := by
      rw [← hlen, byteSwap_ofLeBytes]
      simpa [hlen] using ofBeBytes_lt x
    rw [hlen] at hx
    rw [hrest, word, BitVec.toNat_ofNat, Nat.mod_eq_of_lt hlt, hx]
  · rintro ⟨w, hrest, rfl, hdata⟩
    have hlt : w.toNat < 256 ^ 4 := w.isLt
    refine ⟨word w, s', ⟨length_word w, hrest, hdata⟩, ?_, rfl⟩
    rw [word, byteSwap_beBytes, Nat.mod_eq_of_lt hlt, BitVec.ofNat_toNat, BitVec.setWidth_eq]

lemma decodes_readUInt8 : Decodes readUInt8 (fun b => [b]) id fun data _ => data := by
  intro s a s'
  rw [readUInt8]
  simp only [returns_bind, returns_fread, returns_pure]
  constructor
  · rintro ⟨x, s₁, ⟨hlen, hrest, hdata⟩, rfl, rfl⟩
    obtain ⟨b, rfl⟩ := List.length_eq_one_iff.mp hlen
    exact ⟨b, hrest, rfl, hdata⟩
  · rintro ⟨_, hrest, rfl, hdata⟩
    exact ⟨[a], s', ⟨rfl, hrest, hdata⟩, rfl, rfl⟩

lemma decodes_readLocaltime : Decodes readLocaltime TimeType.bytes (fun _ => ()) fun data t =>
    { data with localtimes := data.localtimes ++ [t.localtime] } := by
  intro s a s'
  rw [readLocaltime]
  simp only [returns_bind, returns_modifyData, decodes_readInt32 _ _ _, decodes_readUInt8 _ _ _]
  constructor
  · rintro ⟨_, s₁, ⟨gmtoff, h₁, rfl, hd₁⟩, isdst, s₂, ⟨_, h₂, rfl, hd₂⟩, abbrind, s₃,
      ⟨_, h₃, rfl, hd₃⟩, rfl⟩
    refine ⟨⟨gmtoff, isdst, abbrind⟩, ?_, trivial, ?_⟩
    · rw [h₁, h₂, h₃, TimeType.bytes]
      simp
    · rw [hd₃, hd₂, hd₁]
      rfl
  · rintro ⟨⟨gmtoff, isdst, abbrind⟩, hrest, -, hdata⟩
    refine ⟨_, ⟨isdst :: abbrind :: s'.rest, s.data⟩, ⟨gmtoff, ?_, rfl, rfl⟩, _,
      ⟨abbrind :: s'.rest, s.data⟩, ⟨isdst, rfl, rfl, rfl⟩, _, ⟨s'.rest, s.data⟩,
      ⟨abbrind, rfl, rfl, rfl⟩, Input.ext rfl hdata.symm⟩
    rw [hrest, TimeType.bytes]
    simp

lemma returns_readBytes {n : ℤ} {l : List UInt8} : Returns (readBytes n) s l s' ↔
    (l.length : ℤ) = n ∧ s.rest = l ++ s'.rest ∧ s'.data = s.data := by
  rw [readBytes]
  simp only [returns_bind, returns_lift, returns_fread, check_eq_ok]
  constructor
  · rintro ⟨_, _, ⟨hn, rfl⟩, hlen, hrest, hdata⟩
    exact ⟨by omega, hrest, hdata⟩
  · rintro ⟨rfl, hrest, hdata⟩
    exact ⟨(), s, ⟨Int.natCast_nonneg _, rfl⟩, rfl, hrest, hdata⟩

lemma returns_pushTransition {trans : List ℤ} {localtimes : List UInt8} {k : ℕ} {t : ℤ} {i : UInt8}
    (ht : trans[k]? = some t) (hi : localtimes[k]? = some i) :
    Returns (pushTransition trans localtimes k) s u s' ↔ i.toNat < s.data.localtimes.length ∧
      s'.rest = s.rest ∧ s'.data = s.data.push [transition s.data.localtimes t i] := by
  rw [pushTransition]
  simp only [elementAt, ht, hi, returns_bind, returns_lift, returns_data, returns_modifyData]
  constructor
  · rintro ⟨_, _, ⟨⟨⟩, rfl⟩, _, _, ⟨⟨⟩, rfl⟩, _, _, ⟨rfl, rfl⟩, l, _, ⟨hl, rfl⟩, rfl⟩
    obtain ⟨-, hget⟩ := Data.localtimeAt_eq_ok.mp hl
    rw [Int.toNat_natCast] at hget
    refine ⟨(List.getElem?_eq_some_iff.mp hget).1, rfl, ?_⟩
    simp [Data.push, transition, hget]
  · rintro ⟨hlt, hrest, hdata⟩
    have hget := List.getElem?_eq_getElem hlt
    refine ⟨i, s, ⟨rfl, rfl⟩, t, s, ⟨rfl, rfl⟩, _, s, ⟨rfl, rfl⟩, _, s,
      ⟨Data.localtimeAt_eq_ok.mpr ⟨Int.natCast_nonneg _, hget⟩, rfl⟩, Input.ext hrest.symm ?_⟩
    rw [hdata]
    simp [Data.push, transition, hget]

lemma returns_pushTransitions_from {trans : List ℤ} {localtimes : List UInt8} {ts : List ℤ}
    {is : List UInt8} {k : ℕ} (hts : trans.drop k = ts) (his : localtimes.drop k = is)
    (hlen : is.length = ts.length) :
    Returns (forM (List.range' k ts.length) (pushTransition trans localtimes)) s u s' ↔
      (∀ i ∈ is, i.toNat < s.data.localtimes.length) ∧ s'.rest = s.rest ∧
        s'.data = s.data.push (List.zipWith (transition s.data.localtimes) ts is) := by
  induction ts generalizing is k s with
  | nil =>
    obtain rfl := List.length_eq_zero_iff.mp hlen
    rw [List.length_nil, List.range'_zero, List.forM_nil, returns_pure]
    constructor
    · rintro ⟨-, rfl⟩
      exact ⟨by simp, rfl, by simp [Data.push]⟩
    · rintro ⟨-, hrest, hdata⟩
      exact ⟨rfl, Input.ext hrest.symm (by simpa [Data.push] using hdata.symm)⟩
  | cons t ts ih =>
    obtain ⟨i, is, rfl⟩ := List.exists_of_length_succ is hlen
    have ht : trans[k]? = some t := by
      rw [← List.head?_drop, hts]
      rfl
    have hi : localtimes[k]? = some i := by
      rw [← List.head?_drop, his]
      rfl
    have hts' : trans.drop (k + 1) = ts := by
      rw [← List.drop_drop, hts]
      rfl
    have his' : localtimes.drop (k + 1) = is := by
      rw [← List.drop_drop, his]
      rfl
    rw [List.length_cons, List.range'_succ, List.forM_cons, returns_bind]
    simp only [ih hts' his' (Nat.succ.inj hlen), returns_pushTransition ht hi]
    constructor
    · rintro ⟨_, s₁, ⟨hlt, hrest₁, hdata₁⟩, hall, hrest, hdata⟩
      rw [hdata₁] at hall hdata
      exact ⟨List.forall_mem_cons.mpr ⟨hlt, hall⟩, hrest.trans hrest₁,
        by simpa [Data.push] using hdata⟩
    · rintro ⟨hall, hrest, hdata⟩
      obtain ⟨hlt, hall⟩ := List.forall_mem_cons.mp hall
      exact ⟨(), ⟨s.rest, s.data.push [transition s.data.localtimes t i]⟩, ⟨hlt, rfl, rfl⟩, hall,
        hrest, by simpa [Data.push] using hdata⟩

lemma returns_pushTransitions {trans : List ℤ} {localtimes : List UInt8} {n : ℕ}
    (htrans : trans.length = n) (hlocaltimes : localtimes.length = n) :
    Returns (forM (List.range n) (pushTransition trans localtimes)) s u s' ↔
      (∀ i ∈ localtimes, i.toNat < s.data.localtimes.length) ∧ s'.rest = s.rest ∧
        s'.data = s.data.push
          (List.zipWith (transition s.data.localtimes) trans localtimes) := by
  rw [List.range_eq_range', ← htrans]
  exact returns_pushTransitions_from List.drop_zero List.drop_zero (hlocaltimes.trans htrans.symm)

lemma foldl_push (types : List TimeType) (data : Data) :
    types.foldl (fun data t => { data with localtimes := data.localtimes ++ [t.localtime] }) data =
      { data with localtimes := data.localtimes ++ types.map TimeType.localtime } := by
  induction types generalizing data with
  | nil => simp
  | cons t types ih => simp [ih]

lemma decodes_readCounts :
    Decodes readCounts Header.bytes Header.counts fun data _ => data := by
  intro s a s'
  rw [readCounts]
  simp only [returns_bind, returns_pure, returns_readBytes, returns_throwIf,
    decodes_readInt32 _ _ _]
  constructor
  · rintro ⟨magic, s₁, ⟨-, h₁, d₁⟩, -, _, ⟨hmagic, rfl⟩, version, s₂, ⟨hversion, h₂, d₂⟩,
      reserved, s₃, ⟨hreserved, h₃, d₃⟩, -, s₄, ⟨isgmtcnt, h₄, -, d₄⟩, -, s₅, ⟨isstdcnt, h₅, -, d₅⟩,
      -, s₆, ⟨leapcnt, h₆, -, d₆⟩, _, s₇, ⟨timecnt, h₇, rfl, d₇⟩, _, s₈, ⟨typecnt, h₈, rfl, d₈⟩,
      _, s₉, ⟨charcnt, h₉, rfl, d₉⟩, rfl, rfl⟩
    obtain ⟨version, rfl⟩ := List.length_eq_one_iff.mp (by omega : version.length = 1)
    obtain rfl := not_not.mp hmagic
    refine ⟨⟨version, reserved, isgmtcnt, isstdcnt, leapcnt, timecnt, typecnt, charcnt, by omega⟩,
      ?_, rfl, ?_⟩
    · rw [h₁, h₂, h₃, h₄, h₅, h₆, h₇, h₈, h₉, Header.bytes, Header.start]
      simp only [List.append_assoc]
    · rw [d₉, d₈, d₇, d₆, d₅, d₄, d₃, d₂, d₁]
  · rintro ⟨h, hrest, rfl, hdata⟩
    rw [Header.bytes, Header.start] at hrest
    simp only [List.append_assoc] at hrest
    have hreserved := h.length_reserved
    exact ⟨_, ⟨_, _⟩, ⟨rfl, hrest, rfl⟩, (), _, ⟨not_not.mpr rfl, rfl⟩, _, ⟨_, _⟩, ⟨rfl, rfl, rfl⟩,
      _, ⟨_, _⟩, ⟨by rw [hreserved]; rfl, rfl, rfl⟩, _, ⟨_, _⟩, ⟨_, rfl, rfl, rfl⟩, _, ⟨_, _⟩,
      ⟨_, rfl, rfl, rfl⟩, _, ⟨_, _⟩, ⟨_, rfl, rfl, rfl⟩, _, ⟨_, _⟩, ⟨_, rfl, rfl, rfl⟩,
      _, ⟨_, _⟩, ⟨_, rfl, rfl, rfl⟩, _, s', ⟨_, rfl, rfl, hdata⟩, rfl, rfl⟩

lemma returns_readTables {c : Counts} (hs : s.data = ⟨[], [], []⟩) :
    Returns (readTables c) s u s' ↔
      ∃ (times : List (BitVec 32)) (indices : List UInt8) (types : List TimeType)
        (abbreviation : List UInt8),
        times.length = c.timecnt ∧ indices.length = times.length ∧
        types.length = c.typecnt.toNat ∧ abbreviation.length = c.charcnt ∧
        (∀ i ∈ indices, i.toNat < types.length) ∧
        s.rest = times.flatMap word ++ (indices ++ (types.flatMap TimeType.bytes ++
          (abbreviation ++ s'.rest))) ∧
        s'.data = ⟨List.zipWith (transition (types.map TimeType.localtime))
          (times.map BitVec.toInt) indices, types.map TimeType.localtime, abbreviation⟩ := by
  rw [readTables]
  simp only [returns_bind, returns_readBytes, returns_throwIf, returns_modifyData,
    decodes_readInt32.times, decodes_readUInt8.times, decodes_readLocaltime.times, foldl_push,
    List.foldl_fixed, List.flatMap_singleton', List.map_id]
  constructor
  · rintro ⟨_, _, ⟨hcount, rfl⟩, _, s₁, ⟨times, htimes, h₁, rfl, d₁⟩, indices, s₂,
      ⟨_, hindices, h₂, rfl, d₂⟩, _, s₃, ⟨types, htypes, h₃, -, d₃⟩, _, s₄, hpush,
      abbreviation, s₅, ⟨hchars, h₅, d₅⟩, rfl⟩
    obtain ⟨hall, h₄, d₄⟩ := (returns_pushTransitions (by simp [htimes]) hindices).mp hpush
    rw [d₂, d₁, hs, List.nil_append] at d₃
    rw [d₃] at hall d₄
    rw [h₃, ← h₄, h₅] at h₂
    refine ⟨times, indices, types, abbreviation, by omega, by omega, htypes, hchars,
      by simpa using hall, ?_, ?_⟩
    · rw [h₁, h₂]
    · rw [d₅, d₄]
      simp [Data.push]
  · rintro ⟨times, indices, types, abbreviation, htimes, hindices, htypes, hchars, hall, hrest,
      hdata⟩
    obtain ⟨rest, data⟩ := s
    obtain rfl : data = ⟨[], [], []⟩ := hs
    let data₁ : Data := ⟨[], types.map TimeType.localtime, []⟩
    let data₂ := data₁.push (List.zipWith (transition data₁.localtimes) (times.map BitVec.toInt)
      indices)
    exact ⟨(), _, ⟨by omega, rfl⟩, _, ⟨_, _⟩, ⟨times, by omega, hrest, rfl, rfl⟩, _,
      ⟨_, _⟩, ⟨indices, by omega, rfl, rfl, rfl⟩, _, ⟨_, data₁⟩, ⟨types, htypes, rfl, rfl, rfl⟩, (),
      ⟨_, data₂⟩, (returns_pushTransitions (by simp [← htimes]) (by omega)).mpr
        ⟨by simpa [data₁] using hall, rfl, rfl⟩,
      abbreviation, ⟨s'.rest, data₂⟩, ⟨hchars, rfl, rfl⟩, Input.ext rfl hdata.symm⟩

/-- The reader takes everything from a file of the format. -/
theorem returns_read (f : ZoneFile) : Returns read ⟨f.bytes, ⟨[], [], []⟩⟩ () ⟨f.rest, f.data⟩ := by
  rw [read, returns_bind]
  refine ⟨f.header.counts, ⟨_, ⟨[], [], []⟩⟩, (decodes_readCounts _ _ _).mpr ⟨_, rfl, rfl, rfl⟩,
    (returns_readTables rfl).mpr ⟨f.times, f.indices, f.types, f.abbreviation, f.length_times,
      f.length_indices, ?_, f.length_abbreviation, f.indices_lt, rfl, rfl⟩⟩
  have := f.length_types
  simp only [Header.counts]
  omega

/-- A file that is read to the end and gives usable data is of the format. -/
theorem exists_zoneFile {bytes : List UInt8} {timecnt typecnt : ℤ}
    (h : Returns read ⟨bytes, ⟨[], [], []⟩⟩ u s') (hcomplete : s'.data.Complete timecnt typecnt) :
    ∃ f : ZoneFile, bytes = f.bytes := by
  rw [read, returns_bind] at h
  obtain ⟨_, s₁, hcounts, htables⟩ := h
  obtain ⟨header, hheader, rfl, hdata₁⟩ := (decodes_readCounts _ _ _).mp hcounts
  obtain ⟨times, indices, types, abbreviation, htimes, hindices, htypes, hchars, hall, hrest,
    hdata⟩ := (returns_readTables hdata₁).mp htables
  have hne : types ≠ [] := by simpa [hdata] using hcomplete.localtimes_ne_nil
  have hpos := List.length_pos_of_ne_nil hne
  refine ⟨⟨header, times, indices, types, abbreviation, s'.rest, htimes, hindices, ?_, hchars, hne,
    hall, fun t ht => ?_⟩, ?_⟩
  · simp only [Header.counts] at htypes
    omega
  · have := (hcomplete.arrbIdx t.localtime (by simpa [hdata] using ⟨t, ht, rfl⟩)).2
    rw [hdata] at this
    exact Int.ofNat_lt.mp this
  · rw [ZoneFile.bytes, ← hrest]
    exact hheader

section

variable {I : Data → Prop}

lemma keeps_readBytes (n : ℤ) : Keeps I (readBytes n) :=
  (keeps_lift _).bind fun _ => keeps_fread _ _

lemma keeps_readInt32 : Keeps I readInt32 := (keeps_fread _ _).bind fun _ => keeps_pure

lemma keeps_readUInt8 : Keeps I readUInt8 := (keeps_fread _ _).bind fun _ => keeps_pure

lemma keeps_readCounts : Keeps I readCounts :=
  (keeps_readBytes 4).bind fun _ => (keeps_throwIf _ _).bind fun _ =>
    (keeps_readBytes 1).bind fun _ => (keeps_readBytes 15).bind fun _ =>
    keeps_readInt32.bind fun _ => keeps_readInt32.bind fun _ => keeps_readInt32.bind fun _ =>
    keeps_readInt32.bind fun _ => keeps_readInt32.bind fun _ => keeps_readInt32.bind fun _ =>
    keeps_pure

lemma keeps_readLocaltime (h : ∀ data localtimes, I data → I { data with localtimes }) :
    Keeps I readLocaltime :=
  keeps_readInt32.bind fun _ => keeps_readUInt8.bind fun _ => keeps_readUInt8.bind fun _ =>
    keeps_modifyData fun data hdata => h data _ hdata

lemma keeps_pushTransition (h : ∀ data transitions, I data → I { data with transitions })
    (trans : List ℤ) (localtimes : List UInt8) (i : ℕ) :
    Keeps I (pushTransition trans localtimes i) :=
  (keeps_lift _).bind fun _ => (keeps_lift _).bind fun _ => keeps_data.bind fun _ =>
    (keeps_lift _).bind fun _ => keeps_modifyData fun data hdata => h data _ hdata

end

/-- The abbreviations are stored last. -/
lemma throwsIn_read : ThrowsIn (fun data => data.abbreviation = []) read := by
  refine keeps_readCounts.bind_throwsIn fun c => ?_
  refine (keeps_throwIf _ _).bind_throwsIn fun _ => ?_
  refine (keeps_readInt32.times _).bind_throwsIn fun trans => ?_
  refine (keeps_readUInt8.times _).bind_throwsIn fun localtimes => ?_
  refine ((keeps_readLocaltime fun _ _ h => h).times _).bind_throwsIn fun _ => ?_
  refine (keeps_forM (keeps_pushTransition (fun _ _ h => h) trans localtimes) _).bind_throwsIn
    fun _ => ?_
  exact (keeps_readBytes _).bind_throwsIn fun _ => throwsIn_modifyData _

end File

/-! ### The constructor -/

/-- The number of four bytes at an offset of a file. -/
def int32At (bytes : List UInt8) (offset : ℕ) : ℤ :=
  (BitVec.ofNat 32 (ofBeBytes ((bytes.drop offset).take 4))).toInt

def timecnt (bytes : List UInt8) : ℤ := int32At bytes 32

def typecnt (bytes : List UInt8) : ℤ := int32At bytes 36

lemma int32At_append {l₁ l₂ : List UInt8} {w : BitVec 32} {n : ℕ} (hn : l₁.length = n) :
    int32At (l₁ ++ (word w ++ l₂)) n = w.toInt := by
  have hlt : w.toNat < 256 ^ 4 := w.isLt
  rw [int32At, List.drop_left' hn, List.take_left' (length_word w), word, ofBeBytes_beBytes,
    Nat.mod_eq_of_lt hlt, BitVec.ofNat_toNat, BitVec.setWidth_eq]

lemma ZoneFile.timecnt_bytes (f : ZoneFile) : timecnt f.bytes = f.header.timecnt.toInt := by
  rw [timecnt, bytes, Header.bytes, List.append_assoc, List.append_assoc, List.append_assoc]
  exact int32At_append f.header.length_start

lemma ZoneFile.typecnt_bytes (f : ZoneFile) : typecnt f.bytes = f.header.typecnt.toInt := by
  rw [typecnt, bytes, Header.bytes, List.append_assoc, List.append_assoc]
  exact int32At_append (by rw [List.length_append, f.header.length_start, length_word])

/-- The zone of a file is valid. Its data is what the reader left. -/
lemma ofFile_eq_ok {zonefile : Option (List UInt8)} {zone : Zone}
    (h : Zone.ofFile zonefile = .ok zone) : ∃ data, (∀ bytes, zonefile = some bytes →
      ∃ r s', File.read.exec ⟨bytes, ⟨[], [], []⟩⟩ = .ok (r, s') ∧ s'.data = data) ∧
      zone = ⟨some data⟩ := by
  cases zonefile with
  | none =>
    cases h
    exact ⟨_, nofun, rfl⟩
  | some bytes =>
    rw [Zone.ofFile, readTimeZoneFile] at h
    obtain ⟨loading, hloading, hzone⟩ := bind_eq_ok.mp h
    obtain ⟨⟨r, s'⟩, hexec, hmatch⟩ := bind_eq_ok.mp hloading
    refine ⟨s'.data, ?_, ?_⟩
    · rintro _ ⟨⟩
      exact ⟨r, s', hexec, rfl⟩
    · cases r with
      | error e =>
        cases hmatch
        cases hzone
        rfl
      | ok u =>
        cases hmatch
        cases hzone
        rfl

/-- The zone of the file is not valid, or everything in the file has been loaded. -/
def LoadedOrRejected (zonefile : Option (List UInt8)) : Prop :=
  Yields (Zone.ofFile zonefile) fun zone => zone.valid = false ∨
    ∃ bytes data, zonefile = some bytes ∧ zone.data = some data ∧
      data.Complete (timecnt bytes) (typecnt bytes) ∧ zone.Defined

/-- The files that are loaded completely are those of the format. No file is rejected. -/
theorem loadedOrRejected_iff (zonefile : Option (List UInt8)) :
    LoadedOrRejected zonefile ↔ ∃ f : ZoneFile, zonefile = some f.bytes := by
  constructor
  · rintro ⟨zone, hzone, hloaded⟩
    obtain ⟨data, hdata, rfl⟩ := ofFile_eq_ok hzone
    obtain hinvalid | ⟨bytes, data, rfl, ⟨⟩, hcomplete, -⟩ := hloaded
    · cases hinvalid
    · obtain ⟨r, s', hexec, rfl⟩ := hdata bytes rfl
      cases r with
      | error e =>
        -- Nothing has been stored for the indices of the abbreviations.
        have hnil := File.throwsIn_read _ _ _ hexec rfl
        obtain ⟨l, ls, hl⟩ := List.exists_cons_of_ne_nil hcomplete.localtimes_ne_nil
        have hindex := hcomplete.arrbIdx l (by simp [hl])
        rw [hnil, List.length_nil] at hindex
        omega
      | ok u =>
        obtain ⟨f, rfl⟩ := File.exists_zoneFile hexec hcomplete
        exact ⟨f, rfl⟩
  · rintro ⟨f, rfl⟩
    have hread : File.read.exec ⟨f.bytes, ⟨[], [], []⟩⟩ = .ok (.ok (), ⟨f.rest, f.data⟩) :=
      File.returns_read f
    have hcomplete : f.data.Complete (timecnt f.bytes) (typecnt f.bytes) := by
      rw [f.timecnt_bytes, f.typecnt_bytes]
      exact f.complete_data
    refine ⟨⟨some f.data⟩, ?_, .inr ⟨f.bytes, f.data, rfl, rfl, hcomplete, hcomplete.defined⟩⟩
    rw [Zone.ofFile, readTimeZoneFile, hread]
    rfl

/-- A file with one transition, to a local time that is not there. -/
def badIndex : List UInt8 :=
  ascii "TZif2" ++ List.replicate 15 0 ++ word 0 ++ word 0 ++ word 0 ++ word 1 ++ word 1 ++
    word 4 ++ word 0 ++ [7] ++ word 0 ++ [0, 0] ++ ascii "UTC\x00"

/-- The zone of an empty file is valid, and a time of it cannot be converted. The reader of the
other file goes beyond the local times itself. -/
theorem not_loadedOrRejected_empty :
    ¬ LoadedOrRejected (some []) ∧ Zone.ofFile (some []) = .ok ⟨some ⟨[], [], []⟩⟩ ∧
      Zone.toLocalTime ⟨some ⟨[], [], []⟩⟩ 0 = .error (.failed .zoneLocaltimeFront) ∧
      ¬ LoadedOrRejected (some badIndex) ∧
      Zone.ofFile (some badIndex) = .error (.failed .zoneLocaltimeIdx) := by
  have hempty : Zone.ofFile (some []) = .ok ⟨some ⟨[], [], []⟩⟩ := by decide +kernel
  have hbad : Zone.ofFile (some badIndex) = .error (.failed .zoneLocaltimeIdx) := by
    decide +kernel
  refine ⟨?_, hempty, by rfl, ?_, hbad⟩
  · rintro ⟨zone, hzone, hloaded⟩
    cases hempty.symm.trans hzone
    obtain hinvalid | ⟨bytes, data, -, ⟨⟩, hcomplete, -⟩ := hloaded
    · cases hinvalid
    · exact hcomplete.localtimes_ne_nil rfl
  · rintro ⟨zone, hzone, -⟩
    cases hbad.symm.trans hzone

end TimeZone

end Muduo
