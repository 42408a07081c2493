/-
Serialization to self-describing formats

A derived `Serialize` turns a value into a tree of serde's data model (`Ser`);
a format writes that tree as a document (`Doc`), or fails: a map key may have
to be a string, an absent value may have no form, an integer may be too
large. A derived `Deserialize` reads a document back.

`RoundTrips f ser de x` says that a format writes `x` and reads it back. It
holds of a record when it does of every field (`field_roundTrips`), and of a
map when it does of every key and value (`map_roundTrips`); nothing else is
needed of a format than the three differences `Format` names.

Key definitions: `Ser`, `Doc`, `Format`, `encode`, `RoundTrips`.
-/
import RustSync.Lib.BTreeMap
import RustSync.Lib.Result

namespace RustSync
namespace Serde

/-- The part of serde's data model that is used here. -/
inductive Ser where
  | u8 (n : UInt8)
  | u64 (n : UInt64)
  | str (s : String)
  | none
  | some (v : Ser)
  | seq (items : List Ser)
  | record (fields : List (String × Ser))
  | map (entries : List (Ser × Ser))

/-- A document, of JSON or of TOML. -/
inductive Doc where
  | null
  | int (n : ℕ)
  | str (s : String)
  | arr (items : List Doc)
  | table (fields : List (String × Doc))

/-- What the formats differ in: whether an absent value is written as `null`
or left out with its field, the integers that can be written, and whether an
integer may be a key. -/
structure Format where
  hasNull : Bool
  integerLimit : ℕ
  integerKeys : Bool

inductive EncodeError where
  | keyMustBeAString
  | unsupportedNone
  | outOfRange
deriving DecidableEq, Repr

inductive DecodeError where
  | invalidType
  | invalidLength
  | invalidValue (reason : String)
  | unknownVariant (variant : String)
  | missingField (name : String)
  | duplicateField (name : String)
deriving DecidableEq, Repr

section Encode

variable (f : Format)

def encodeKey : Ser → Except EncodeError String
  | .str s => .ok s
  | .u64 n => if f.integerKeys then .ok (toString n) else .error .keyMustBeAString
  | _ => .error .keyMustBeAString

mutual

def encode : Ser → Except EncodeError Doc
  | .u8 n => .ok (.int n.toNat)
  | .u64 n => if n.toNat < f.integerLimit then .ok (.int n.toNat) else .error .outOfRange
  | .str s => .ok (.str s)
  | .none => if f.hasNull then .ok .null else .error .unsupportedNone
  | .some v => encode v
  | .seq items => do return .arr (← encodeItems items)
  | .record fields => do return .table (← encodeFields fields)
  | .map entries => do return .table (← encodeEntries entries)

def encodeItems : List Ser → Except EncodeError (List Doc)
  | [] => .ok []
  | v :: rest => do return (← encode v) :: (← encodeItems rest)

/-- An absent field is `null`, or left out. -/
def encodeFields : List (String × Ser) → Except EncodeError (List (String × Doc))
  | [] => .ok []
  | (name, .none) :: rest => do
    let docs ← encodeFields rest
    return if f.hasNull then (name, .null) :: docs else docs
  | (name, v) :: rest => do return (name, ← encode v) :: (← encodeFields rest)

def encodeEntries : List (Ser × Ser) → Except EncodeError (List (String × Doc))
  | [] => .ok []
  | (k, v) :: rest => do return (← encodeKey f k, ← encode v) :: (← encodeEntries rest)

end

end Encode

/-! ### Reading -/

def asStr : Doc → Except DecodeError String
  | .str s => .ok s
  | _ => .error .invalidType

def asU64 : Doc → Except DecodeError UInt64
  | .int n => if n < UInt64.size then .ok (UInt64.ofNat n) else .error .invalidType
  | _ => .error .invalidType

def asU8 : Doc → Except DecodeError UInt8
  | .int n => if n < UInt8.size then .ok (UInt8.ofNat n) else .error .invalidType
  | _ => .error .invalidType

def asItems : Doc → Except DecodeError (List Doc)
  | .arr items => .ok items
  | _ => .error .invalidType

def asTable : Doc → Except DecodeError (List (String × Doc))
  | .table fields => .ok fields
  | _ => .error .invalidType

def decodeItems {α : Type} (de : Doc → Except DecodeError α) : List Doc → Except DecodeError (List α)
  | [] => .ok []
  | d :: rest => do return (← de d) :: (← decodeItems de rest)

/-- The document of a field, if it is there. -/
def lookupField (fields : List (String × Doc)) (name : String) : Except DecodeError (Option Doc) :=
  match fields.filter fun field => field.1 = name with
  | [] => .ok none
  | [(_, d)] => .ok (some d)
  | _ => .error (.duplicateField name)

def field {α : Type} (fields : List (String × Doc)) (name : String)
    (de : Doc → Except DecodeError α) : Except DecodeError α := do
  match ← lookupField fields name with
  | some d => de d
  | none => .error (.missingField name)

/-- A field of option type: absent and `null` are both `None`. -/
def optField {α : Type} (fields : List (String × Doc)) (name : String)
    (de : Doc → Except DecodeError α) : Except DecodeError (Option α) := do
  match ← lookupField fields name with
  | some .null => return none
  | some d => return some (← de d)
  | none => return none

def decodeEntries {κ ν : Type} (dk : String → Except DecodeError κ)
    (dv : Doc → Except DecodeError ν) : List (String × Doc) → Except DecodeError (List (κ × ν))
  | [] => .ok []
  | (k, d) :: rest => do return (← dk k, ← dv d) :: (← decodeEntries dk dv rest)

def decodeMap {κ ν : Type} [Ord κ] (dk : String → Except DecodeError κ)
    (dv : Doc → Except DecodeError ν) (d : Doc) : Except DecodeError (BTreeMap κ ν) := do
  let entries ← decodeEntries dk dv (← asTable d)
  return Std.ExtTreeMap.ofList entries compare

/-- How a map is serialized: its entries in order. -/
def serMap {κ ν : Type} [Ord κ] [Std.TransOrd κ] (sk : κ → Ser) (sv : ν → Ser)
    (m : BTreeMap κ ν) : Ser :=
  .map (m.toList.map fun (k, v) => (sk k, sv v))

def serOption {α : Type} (ser : α → Ser) : Option α → Ser
  | none => .none
  | some x => .some (ser x)

/-! ### Round trips -/

/-- The format writes `x`, and reads it back; `x` is not serialized as absent,
and nothing is read from `null`. -/
structure RoundTrips {α : Type} (f : Format) (ser : α → Ser) (de : Doc → Except DecodeError α)
    (x : α) : Prop where
  present : ser x ≠ .none
  notNull : ∀ y, de .null ≠ .ok y
  written : ∃ d, encode f (ser x) = .ok d ∧ de d = .ok x

section RoundTrips

variable {f : Format} {α κ ν : Type} {ser : α → Ser} {de : Doc → Except DecodeError α}

theorem str_roundTrips (s : String) : RoundTrips f .str asStr s :=
  ⟨nofun, nofun, .str s, by simp [encode], rfl⟩

theorem u64_roundTrips {n : UInt64} (h : n.toNat < f.integerLimit) : RoundTrips f .u64 asU64 n := by
  refine ⟨nofun, nofun, .int n.toNat, by rw [encode, if_pos h], ?_⟩
  have hlt : n.toNat < UInt64.size := n.toNat_lt
  simp only [asU64, if_pos hlt, UInt64.ofNat_toNat]

theorem u8_roundTrips (n : UInt8) : RoundTrips f .u8 asU8 n := by
  refine ⟨nofun, nofun, .int n.toNat, by rw [encode], ?_⟩
  have hlt : n.toNat < UInt8.size := n.toNat_lt
  simp only [asU8, if_pos hlt, UInt8.ofNat_toNat]

theorem items_roundTrip : ∀ {xs : List α}, (∀ x ∈ xs, RoundTrips f ser de x) →
    ∃ ds, encodeItems f (xs.map ser) = .ok ds ∧ decodeItems de ds = .ok xs
  | [], _ => ⟨[], by simp [encodeItems], rfl⟩
  | x :: xs, h => by
    obtain ⟨d, hd, hx⟩ := (h x List.mem_cons_self).written
    obtain ⟨ds, hds, hxs⟩ := items_roundTrip (fun y hy => h y (List.mem_cons_of_mem _ hy))
    refine ⟨d :: ds, ?_, ?_⟩
    · simp [encodeItems, hd, hds, pure, Except.pure, bind, Except.bind]
    · simp [decodeItems, hx, hxs, pure, Except.pure, bind, Except.bind]

/-! ### Records -/

/-- A record is written when its fields are, except those that are absent. -/
theorem encodeFields_of_forall : ∀ {fields : List (String × Ser)},
    (∀ p ∈ fields, p.2 = .none ∨ ∃ d, encode f p.2 = .ok d) → ∃ out, encodeFields f fields = .ok out
  | [], _ => ⟨[], by simp [encodeFields]⟩
  | (name, v) :: rest, h => by
    obtain ⟨out, hout⟩ := encodeFields_of_forall fun p hp => h p (List.mem_cons_of_mem _ hp)
    by_cases hv : v = .none
    · subst hv
      exact ⟨_, by rw [encodeFields, hout]; rfl⟩
    · obtain ⟨d, hd⟩ := (h _ List.mem_cons_self).resolve_left hv
      refine ⟨(name, d) :: out, ?_⟩
      rw [encodeFields]
      · simp [hd, hout, bind, Except.bind, pure, Except.pure]
      · exact hv

/-- What writing a list of fields says of its first one. -/
theorem encodeFields_cons {name : String} {v : Ser} {rest : List (String × Ser)}
    {out : List (String × Doc)} (h : encodeFields f ((name, v) :: rest) = .ok out) :
    ∃ docs, encodeFields f rest = .ok docs ∧
      ((v = .none ∧ f.hasNull = false ∧ out = docs) ∨
        ∃ d, encode f v = .ok d ∧ out = (name, d) :: docs) := by
  by_cases hv : v = .none
  · subst hv
    rw [encodeFields, Except.bind_ok] at h
    obtain ⟨docs, hdocs, hout⟩ := h
    refine ⟨docs, hdocs, ?_⟩
    cases hn : f.hasNull with
    | true =>
      rw [hn] at hout
      cases hout
      exact .inr ⟨.null, by simp [encode, hn], rfl⟩
    | false =>
      rw [hn] at hout
      cases hout
      exact .inl ⟨rfl, rfl, rfl⟩
  · rw [encodeFields] at h
    · simp only [Except.bind_ok] at h
      obtain ⟨d, hd, docs, hdocs, hout⟩ := h
      cases hout
      exact ⟨docs, hdocs, .inr ⟨d, hd, rfl⟩⟩
    · exact hv

/-- A name that is not serialized is not in the document. -/
theorem filter_encodeFields {name : String} : ∀ {fields : List (String × Ser)}
    {out : List (String × Doc)}, encodeFields f fields = .ok out → name ∉ fields.map Prod.fst →
    out.filter (fun field => field.1 = name) = []
  | [], _, h, _ => by
    simp only [encodeFields] at h
    cases h
    rfl
  | (n, v) :: rest, out, h, hn => by
    rw [List.map_cons, List.mem_cons, not_or] at hn
    obtain ⟨docs, hdocs, ⟨_, _, rfl⟩ | ⟨d, _, rfl⟩⟩ := encodeFields_cons h
    · exact filter_encodeFields hdocs hn.2
    · rw [List.filter_cons_of_neg (by simpa using Ne.symm hn.1)]
      exact filter_encodeFields hdocs hn.2

/-- A serialized field is found again, unless it is absent. -/
theorem lookupField_encodeFields {name : String} {v : Ser} : ∀ {fields : List (String × Ser)}
    {out : List (String × Doc)}, encodeFields f fields = .ok out → (fields.map Prod.fst).Nodup →
    (name, v) ∈ fields →
    (v = .none ∧ lookupField out name = .ok none) ∨
      ∃ d, encode f v = .ok d ∧ lookupField out name = .ok (some d)
  | (n, v') :: rest, out, h, hn, hm => by
    rw [List.map_cons, List.nodup_cons] at hn
    obtain ⟨docs, hdocs, hcase⟩ := encodeFields_cons h
    rcases List.mem_cons.mp hm with hm | hm
    · cases hm
      have hrest := filter_encodeFields hdocs hn.1
      rcases hcase with ⟨hv, _, rfl⟩ | ⟨d, hd, rfl⟩
      · exact .inl ⟨hv, by rw [lookupField, hrest]⟩
      · refine .inr ⟨d, hd, ?_⟩
        rw [lookupField, List.filter_cons_of_pos (by simp), hrest]
    · have hne : n ≠ name := by
        rintro rfl
        exact hn.1 (List.mem_map.mpr ⟨_, hm, rfl⟩)
      have hlookup : lookupField out name = lookupField docs name := by
        rcases hcase with ⟨_, _, rfl⟩ | ⟨d, _, rfl⟩
        · rfl
        · unfold lookupField
          rw [List.filter_cons_of_neg (by simpa using hne)]
      rw [hlookup]
      exact lookupField_encodeFields hdocs hn.2 hm

variable {fields : List (String × Ser)} {out : List (String × Doc)} {name : String}

theorem field_roundTrips (h : encodeFields f fields = .ok out) (hn : (fields.map Prod.fst).Nodup)
    {x : α} (hx : RoundTrips f ser de x) (hm : (name, ser x) ∈ fields) :
    field out name de = .ok x := by
  obtain ⟨d, hd, hde⟩ := hx.written
  rcases lookupField_encodeFields h hn hm with ⟨hv, _⟩ | ⟨d', hd', hl⟩
  · exact absurd hv hx.present
  · rw [hd] at hd'
    cases hd'
    simp [field, hl, hde, bind, Except.bind]

theorem optField_roundTrips (h : encodeFields f fields = .ok out)
    (hn : (fields.map Prod.fst).Nodup) {o : Option α} (hx : ∀ x ∈ o, RoundTrips f ser de x)
    (hm : (name, serOption ser o) ∈ fields) : optField out name de = .ok o := by
  rcases lookupField_encodeFields h hn hm with ⟨hv, hl⟩ | ⟨d, hd, hl⟩
  · cases o with
    | none => simp [optField, hl, bind, Except.bind, pure, Except.pure]
    | some x => cases hv
  · cases o with
    | none =>
      have hd : d = .null := by
        simp only [serOption, encode] at hd
        split at hd
        · exact (Except.ok.inj hd).symm
        · cases hd
      simp [optField, hl, hd, bind, Except.bind, pure, Except.pure]
    | some x =>
      obtain ⟨d', hd', hde⟩ := (hx x rfl).written
      have hdd : d = d' := by
        simp only [serOption, encode] at hd
        exact Except.ok.inj (hd.symm.trans hd')
      subst hdd
      have hne : d ≠ .null := by
        rintro rfl
        exact (hx x rfl).notNull x hde
      cases d <;> simp_all [optField, bind, Except.bind, pure, Except.pure]

theorem RoundTrips.writes {x : α} (h : RoundTrips f ser de x) :
    ser x = .none ∨ ∃ d, encode f (ser x) = .ok d := by
  obtain ⟨d, hd, _⟩ := h.written
  exact .inr ⟨d, hd⟩

theorem optWrites {o : Option α} (h : ∀ x ∈ o, RoundTrips f ser de x) :
    serOption ser o = .none ∨ ∃ d, encode f (serOption ser o) = .ok d := by
  cases o with
  | none => exact .inl rfl
  | some x =>
    obtain ⟨d, hd, _⟩ := (h x rfl).written
    exact .inr ⟨d, by rw [serOption, encode, hd]⟩

/-- A record round-trips when its fields are written and, wherever they are,
read back. -/
theorem record_roundTrips {x : α} {fields : List (String × Ser)} (hser : ser x = .record fields)
    (hw : ∀ p ∈ fields, p.2 = .none ∨ ∃ d, encode f p.2 = .ok d)
    (hnull : ∀ y, de .null ≠ .ok y)
    (hr : ∀ out, encodeFields f fields = .ok out → de (.table out) = .ok x) :
    RoundTrips f ser de x := by
  obtain ⟨out, hout⟩ := encodeFields_of_forall hw
  refine ⟨by rw [hser]; nofun, hnull, .table out, ?_, hr out hout⟩
  rw [hser, encode, hout]
  rfl

/-- What is written of a record is written of each field. -/
theorem encode_of_mem : ∀ {fields : List (String × Ser)} {out : List (String × Doc)},
    encodeFields f fields = .ok out → ∀ {name : String} {v : Ser}, (name, v) ∈ fields → v ≠ .none →
    ∃ d, encode f v = .ok d
  | (n, v') :: rest, out, h, name, v, hm, hv => by
    obtain ⟨docs, hdocs, hcase⟩ := encodeFields_cons h
    rcases List.mem_cons.mp hm with hm | hm
    · cases hm
      rcases hcase with ⟨hnone, _⟩ | ⟨d, hd, _⟩
      · exact absurd hnone hv
      · exact ⟨d, hd⟩
    · exact encode_of_mem hdocs hm hv

/-! ### Maps -/

variable {sk : κ → Ser} {sv : ν → Ser} {dk : String → Except DecodeError κ}
  {dv : Doc → Except DecodeError ν}

theorem entries_roundTrip : ∀ {entries : List (κ × ν)},
    (∀ p ∈ entries, (∃ k, encodeKey f (sk p.1) = .ok k ∧ dk k = .ok p.1) ∧ RoundTrips f sv dv p.2) →
    ∃ docs, encodeEntries f (entries.map fun (k, v) => (sk k, sv v)) = .ok docs ∧
      decodeEntries dk dv docs = .ok entries
  | [], _ => ⟨[], by simp [encodeEntries], rfl⟩
  | (k, v) :: rest, h => by
    obtain ⟨⟨key, hkey, hk⟩, hrt⟩ := h _ List.mem_cons_self
    obtain ⟨d, hd, hv⟩ := hrt.written
    obtain ⟨docs, hdocs, hrest⟩ := entries_roundTrip fun p hp => h p (List.mem_cons_of_mem _ hp)
    refine ⟨(key, d) :: docs, ?_, ?_⟩
    · simp [encodeEntries, hkey, hd, hdocs, pure, Except.pure, bind, Except.bind]
    · simp [decodeEntries, hk, hv, hrest, pure, Except.pure, bind, Except.bind]

variable [Ord κ] [Std.TransOrd κ]

theorem ofList_toList [Std.LawfulEqOrd κ] (m : BTreeMap κ ν) :
    Std.ExtTreeMap.ofList m.toList compare = m := by
  refine BTreeMap.ext_lookup fun k => ?_
  cases hk : m[k]? with
  | some v =>
    exact Std.ExtTreeMap.getElem?_ofList_of_mem Std.ReflCmp.compare_self
      Std.ExtTreeMap.distinct_keys_toList (Std.ExtTreeMap.mem_toList_iff_getElem?_eq_some.mpr hk)
  | none =>
    have hmem : k ∉ Std.ExtTreeMap.ofList m.toList compare := by
      classical
      rw [Std.ExtTreeMap.mem_ofList, List.contains_iff_mem, List.mem_map]
      rintro ⟨⟨k', v⟩, hm, rfl⟩
      rw [Std.ExtTreeMap.mem_toList_iff_getElem?_eq_some, hk] at hm
      cases hm
    exact Std.ExtTreeMap.getElem?_eq_none hmem

/-- A map round-trips when its keys and values do. -/
theorem map_roundTrips [Std.LawfulEqOrd κ] {m : BTreeMap κ ν}
    (h : ∀ (k : κ) (v : ν), m[k]? = some v →
      (∃ key, encodeKey f (sk k) = .ok key ∧ dk key = .ok k) ∧ RoundTrips f sv dv v) :
    RoundTrips f (serMap sk sv) (decodeMap dk dv) m := by
  have hall : ∀ p ∈ m.toList,
      (∃ key, encodeKey f (sk p.1) = .ok key ∧ dk key = .ok p.1) ∧ RoundTrips f sv dv p.2 :=
    fun p hp => h p.1 p.2 (Std.ExtTreeMap.mem_toList_iff_getElem?_eq_some.mp hp)
  obtain ⟨docs, hdocs, hentries⟩ := entries_roundTrip hall
  refine ⟨nofun, nofun, .table docs, ?_, ?_⟩
  · simp [serMap, encode, hdocs, pure, Except.pure, bind, Except.bind]
  · simp [decodeMap, asTable, hentries, ofList_toList, pure, Except.pure, bind, Except.bind]

/-- A map with a key that is not a string cannot be written. -/
theorem encode_map_key {k : Ser} {v : Ser} {rest : List (Ser × Ser)} {d : Doc}
    (h : encode f (.map ((k, v) :: rest)) = .ok d) : ∃ key, encodeKey f k = .ok key := by
  simp only [encode, encodeEntries, Except.bind_ok] at h
  obtain ⟨_, ⟨key, hkey, _⟩, _⟩ := h
  exact ⟨key, hkey⟩

/-- What is in a map that was written was written. -/
theorem encodeEntries_of_mem : ∀ {entries : List (Ser × Ser)} {out : List (String × Doc)},
    encodeEntries f entries = .ok out → ∀ p ∈ entries, ∃ d, encode f p.2 = .ok d
  | [], _, _, p, hp => by cases hp
  | (k, v) :: rest, out, h, p, hp => by
    simp only [encodeEntries, Except.bind_ok] at h
    obtain ⟨_, _, d, hd, rest', hrest, _⟩ := h
    rcases List.mem_cons.mp hp with rfl | hp
    · exact ⟨d, hd⟩
    · exact encodeEntries_of_mem hrest p hp

theorem encode_map_value [Std.LawfulEqOrd κ] {m : BTreeMap κ ν} {d : Doc}
    (h : encode f (serMap sk sv m) = .ok d) {k : κ}
    {v : ν} (hk : m[k]? = some v) : ∃ d', encode f (sv v) = .ok d' := by
  simp only [serMap, encode, Except.bind_ok] at h
  obtain ⟨out, hout, _⟩ := h
  have hmem : (k, v) ∈ m.toList := Std.ExtTreeMap.mem_toList_iff_getElem?_eq_some.mpr hk
  exact encodeEntries_of_mem hout (sk k, sv v) (List.mem_map.mpr ⟨(k, v), hmem, rfl⟩)

end RoundTrips

end Serde
end RustSync
