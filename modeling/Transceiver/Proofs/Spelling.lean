import Mathlib.Data.List.Forall2
import Mathlib.Data.List.Nodup
import Transceiver.Operation.Format

/-!
Reading accepts what a format allows to be written, and nothing else.

What a document may look like is said here for each type on its own: the spellings of a value. A
value out of a list has two, its name and an object with the name for its only key; a whole number
and a truth value have one; a record has one for each choice of spellings of its members, of their
order, of what stands beside them, and the bare array. The choices are free at every level.

`Format.Faithful` says that a format reads a document as a value exactly if the document is a
spelling of the value, and that what it writes is a spelling. The rest follows. The formats of this
library are put together from four kinds, and so are the proofs: one lemma for each kind, and the
names of the members for each type.
-/

namespace Transceiver

/-! ### Spellings -/

/-- No two members of an object have the same key, at any depth. -/
inductive Document.Distinct : Document → Prop
  | null : Distinct .null
  | bool (b : Bool) : Distinct (.bool b)
  | integer (n : Int) : Distinct (.integer n)
  | decimal (mantissa exponent : Int) : Distinct (.decimal mantissa exponent)
  | text (s : String) : Distinct (.text s)
  | array {items : List Document} (hitems : ∀ d ∈ items, Distinct d) : Distinct (.array items)
  | object {members : List (String × Document)} (hkeys : (members.map Prod.fst).Nodup)
      (hmembers : ∀ member ∈ members, Distinct member.2) : Distinct (.object members)

/-- Spellings of a name. -/
inductive SpellsName (name : String) : Document → Prop
  | bare : SpellsName name (.text name)
  | keyed : SpellsName name (.object [(name, .null)])

/-- A member of a record, with what spells it. -/
abbrev Member := String × (Document → Prop)

/-- Spellings of a record by its members, given in their order. An object may hold more. -/
inductive SpellsRecord (fields : List Member) : Document → Prop
  | object {members : List (String × Document)}
      (h : ∀ field ∈ fields, ∃ d, (field.1, d) ∈ members ∧ field.2 d) :
      SpellsRecord fields (.object members)
  | array {items : List Document} (h : List.Forall₂ (fun field d => field.2 d) fields items) :
      SpellsRecord fields (.array items)

theorem spellsRecord_object {fields : List Member} {members : List (String × Document)} :
    SpellsRecord fields (.object members) ↔
      ∀ field ∈ fields, ∃ d, (field.1, d) ∈ members ∧ field.2 d :=
  ⟨fun h => by cases h; assumption, .object⟩

theorem spellsRecord_array {fields : List Member} {items : List Document} :
    SpellsRecord fields (.array items) ↔
      List.Forall₂ (fun field d => field.2 d) fields items :=
  ⟨fun h => by cases h; assumption, .array⟩

def Modulation.Spelled (m : Modulation) : Document → Prop :=
  SpellsRecord [("sf", SpellsName m.spreading.name), ("bw", SpellsName m.bandwidth.name),
    ("cr", SpellsName m.coding.name), ("ldro", (· = .bool m.lowRate))]

def Channel.Spelled (c : Channel) : Document → Prop :=
  SpellsRecord [("frequency", (· = .integer c.frequency.toNat)), ("bb", c.modulation.Spelled)]

def Operation.Spelled (op : Operation) : Document → Prop :=
  SpellsRecord [("rf", op.channel.Spelled), ("tx_power", (· = .integer op.power.toInt)),
    ("len", (· = .integer op.length.toNat)), ("rx_time", (· = .integer op.receiveAt.toNat)),
    ("fcnt_up", (· = .integer op.uplinkCounter.toNat)),
    ("adr_ack_req", (· = .bool op.rateAckRequested))]

/-! ### Faithful formats -/

/-- A format reads the spellings of each value as that value and nothing else, and writes one of
them. -/
structure Format.Faithful {α : Type} (f : Format α) (Spelled : α → Document → Prop) : Prop where
  decode_iff : ∀ {d : Document}, d.Distinct → ∀ x, f.decode? d = some x ↔ Spelled x d
  spelled_encode : ∀ x, Spelled x (f.encode x)
  distinct_encode : ∀ x, (f.encode x).Distinct

/-- A faithful format, with what follows for it. -/
structure Format.Exact {α : Type} (f : Format α) (Spelled : α → Document → Prop) : Prop extends
    f.Faithful Spelled where
  decode_none_iff : ∀ {d : Document}, d.Distinct → (f.decode? d = none ↔ ∀ x, ¬ Spelled x d)
  decode_encode : ∀ x, f.decode? (f.encode x) = some x
  encode_stable : ∀ {d : Document} {x : α}, f.decode? d = some x →
    (f.decode? (f.encode x)).map f.encode = some (f.encode x)

/-- The members of a record are read from where they stand and written in their order. -/
structure Members.Faithful {α : Type} (ms : Members α) (fields : α → List Member) : Prop where
  ofObject_iff : ∀ {members : List (String × Document)}, (Document.object members).Distinct →
    ∀ x, ms.ofObject? members = some x ↔
      ∀ field ∈ fields x, ∃ d, (field.1, d) ∈ members ∧ field.2 d
  ofArray_iff : ∀ {items : List Document}, (Document.array items).Distinct →
    ∀ x, ms.ofArray? items = some x ↔ List.Forall₂ (fun field d => field.2 d) (fields x) items
  keys_encode : ∀ x, (ms.encode x).map Prod.fst = (fields x).map Prod.fst
  spelled_encode : ∀ x, ∀ field ∈ fields x, ∃ d, (field.1, d) ∈ ms.encode x ∧ field.2 d
  distinct_encode : ∀ x, ∀ member ∈ ms.encode x, member.2.Distinct

/-! ### Documents -/

namespace Document

theorem Distinct.nodup_keys {members : List (String × Document)}
    (h : (Document.object members).Distinct) : (members.map Prod.fst).Nodup := by
  cases h with
  | object hkeys _ => exact hkeys

theorem Distinct.member {members : List (String × Document)}
    (h : (Document.object members).Distinct) {member : String × Document}
    (hmem : member ∈ members) : member.2.Distinct := by
  cases h with
  | object _ hmembers => exact hmembers member hmem

theorem distinct_array_cons {item : Document} {items : List Document} :
    (array (item :: items)).Distinct ↔ item.Distinct ∧ (array items).Distinct := by
  constructor
  · rintro (_ | _ | _ | _ | _ | h)
    obtain ⟨hitem, hitems⟩ := List.forall_mem_cons.mp h
    exact ⟨hitem, .array hitems⟩
  · rintro ⟨hitem, _ | _ | _ | _ | _ | hitems⟩
    exact .array (List.forall_mem_cons.mpr ⟨hitem, hitems⟩)

theorem name?_eq_some_iff {d : Document} {name : String} :
    d.name? = some name ↔ SpellsName name d := by
  constructor
  · intro h
    unfold name? at h
    split at h
    · cases h
      exact .bare
    · cases h
      exact .keyed
    · cases h
  · rintro (_ | _)
    · rfl
    · rfl

/-- Where no key stands twice, looking it up finds what stands there. -/
theorem lookup_eq_some_iff_mem {members : List (String × Document)} {key : String} {d : Document}
    (h : (members.map Prod.fst).Nodup) : members.lookup key = some d ↔ (key, d) ∈ members := by
  rw [List.lookup_eq_some_iff]
  constructor
  · rintro ⟨front, back, rfl, -⟩
    exact List.mem_append_right _ (.head _)
  · intro hmem
    obtain ⟨front, back, rfl⟩ := List.append_of_mem hmem
    refine ⟨front, back, rfl, fun member hmember => bne_iff_ne.mpr ?_⟩
    rintro rfl
    rw [List.map_append, List.nodup_append] at h
    exact h.2.2 _ (List.mem_map_of_mem hmember) _ (List.mem_map_of_mem (.head _)) rfl

end Document

/-! ### Members -/

namespace Members

theorem Faithful.none : Members.none.Faithful fun _ => [] where
  ofObject_iff _ _ := ⟨fun _ _ h => (List.not_mem_nil h).elim, fun _ => rfl⟩
  ofArray_iff {items} _ x := by
    cases items with
    | nil => exact ⟨fun _ => .nil, fun _ => rfl⟩
    | cons item items => exact ⟨nofun, nofun⟩
  keys_encode _ := rfl
  spelled_encode _ _ h := (List.not_mem_nil h).elim
  distinct_encode _ _ h := (List.not_mem_nil h).elim

variable {α β : Type} {first : Format α} {Spelled : α → Document → Prop} {rest : Members β}
  {fields : β → List Member}

theorem Faithful.cons (name : String) (hfirst : first.Faithful Spelled)
    (hrest : rest.Faithful fields) :
    (Members.cons name first rest).Faithful fun x => (name, Spelled x.1) :: fields x.2 where
  ofObject_iff {members} hdistinct := by
    rintro ⟨a, b⟩
    simp only [Members.cons, Option.bind_eq_bind, Option.bind_eq_some_iff, Option.pure_def,
      Option.some.injEq, Prod.mk.injEq, List.forall_mem_cons, ← hrest.ofObject_iff hdistinct]
    constructor
    · rintro ⟨d, hd, a', ha, b', hb, rfl, rfl⟩
      have hmem := (Document.lookup_eq_some_iff_mem hdistinct.nodup_keys).mp hd
      exact ⟨⟨d, hmem, (hfirst.decode_iff (hdistinct.member hmem) a').mp ha⟩, hb⟩
    · rintro ⟨⟨d, hmem, hspelled⟩, hb⟩
      have hd := (Document.lookup_eq_some_iff_mem hdistinct.nodup_keys).mpr hmem
      exact ⟨d, hd, a, (hfirst.decode_iff (hdistinct.member hmem) a).mpr hspelled, b, hb, rfl, rfl⟩
  ofArray_iff {items} hdistinct := by
    rintro ⟨a, b⟩
    cases items with
    | nil => exact ⟨nofun, nofun⟩
    | cons item items =>
        obtain ⟨hitem, hitems⟩ := Document.distinct_array_cons.mp hdistinct
        simp only [Members.cons, Option.bind_eq_bind, Option.bind_eq_some_iff, Option.pure_def,
          Option.some.injEq, Prod.mk.injEq, List.forall₂_cons, ← hrest.ofArray_iff hitems,
          ← hfirst.decode_iff hitem]
        constructor
        · rintro ⟨a', ha, b', hb, rfl, rfl⟩
          exact ⟨ha, hb⟩
        · rintro ⟨ha, hb⟩
          exact ⟨a, ha, b, hb, rfl, rfl⟩
  keys_encode x := congrArg (name :: ·) (hrest.keys_encode x.2)
  spelled_encode x := by
    refine List.forall_mem_cons.mpr ⟨⟨_, .head _, hfirst.spelled_encode x.1⟩, ?_⟩
    intro field hfield
    obtain ⟨d, hmem, hd⟩ := hrest.spelled_encode x.2 field hfield
    exact ⟨d, .tail _ hmem, hd⟩
  distinct_encode x :=
    List.forall_mem_cons.mpr ⟨hfirst.distinct_encode x.1, hrest.distinct_encode x.2⟩

end Members

/-! ### Formats -/

namespace Format

variable {α β : Type}

theorem Faithful.exact {f : Format α} {Spelled : α → Document → Prop} (h : f.Faithful Spelled) :
    f.Exact Spelled := by
  have hread : ∀ x, f.decode? (f.encode x) = some x := fun x =>
    (h.decode_iff (h.distinct_encode x) x).mpr (h.spelled_encode x)
  refine { h with decode_none_iff := ?_, decode_encode := hread, encode_stable := ?_ }
  · intro d hd
    rw [Option.eq_none_iff_forall_ne_some]
    exact forall_congr' fun x => not_congr (h.decode_iff hd x)
  · intro d x _
    rw [hread]
    rfl

theorem Faithful.named {all : List α} {name : α → String} (hall : ∀ x, x ∈ all)
    (hnames : (all.map name).Nodup) : (named all name).Faithful fun x => SpellsName (name x) where
  decode_iff {d} _ x := by
    have hfind : ∀ s, all.find? (name · == s) = some x ↔ name x = s := by
      intro s
      constructor
      · intro h
        simpa using List.find?_some h
      · rintro rfl
        obtain ⟨y, hy⟩ : ∃ y, all.find? (name · == name x) = some y :=
          Option.isSome_iff_exists.mp (by simpa using ⟨x, hall x, rfl⟩)
        have hname : name y = name x := by simpa using List.find?_some hy
        rw [hy, List.inj_on_of_nodup_map hnames (hall y) (hall x) hname]
    simp only [Format.named, Option.bind_eq_some_iff, hfind, Document.name?_eq_some_iff,
      exists_eq_right']
  spelled_encode _ := .bare
  distinct_encode _ := .text _

theorem Faithful.integer {low high : Int} {toInt : α → Int} {ofInt : Int → α}
    (hrange : ∀ x, low ≤ toInt x ∧ toInt x ≤ high) (hleft : ∀ x, ofInt (toInt x) = x)
    (hright : ∀ n, low ≤ n → n ≤ high → toInt (ofInt n) = n) :
    (integer low high toInt ofInt).Faithful fun x d => d = .integer (toInt x) where
  decode_iff {d} _ x := by
    constructor
    · intro h
      cases d with
      | integer n =>
          simp only [Format.integer, Option.ite_none_right_eq_some, Option.some.injEq] at h
          obtain ⟨hn, rfl⟩ := h
          rw [hright n hn.1 hn.2]
      | _ => cases h
    · rintro rfl
      simp only [Format.integer, if_pos (hrange x), hleft]
  spelled_encode _ := rfl
  distinct_encode _ := .integer _

theorem Faithful.bool : Format.bool.Faithful fun b d => d = .bool b where
  decode_iff {d} _ x := by
    cases d <;> simp [Format.bool]
  spelled_encode _ := rfl
  distinct_encode _ := .bool _

theorem Faithful.record {members : Members α} {fields : α → List Member} {make : α → β}
    {parts : β → α} (hmembers : members.Faithful fields) (hmake : ∀ y, make (parts y) = y)
    (hparts : ∀ x, parts (make x) = x) (hkeys : ∀ x, ((fields x).map Prod.fst).Nodup) :
    (record members make parts).Faithful fun y => SpellsRecord (fields (parts y)) where
  decode_iff {d} hdistinct y := by
    have hmade : ∀ o : Option α, o.map make = some y ↔ o = some (parts y) := by
      intro o
      rw [Option.map_eq_some_iff]
      constructor
      · rintro ⟨x, rfl, rfl⟩
        rw [hparts]
      · rintro rfl
        exact ⟨parts y, rfl, hmake y⟩
    cases d with
    | object ms =>
        rw [spellsRecord_object, ← hmembers.ofObject_iff hdistinct]
        exact hmade _
    | array items =>
        rw [spellsRecord_array, ← hmembers.ofArray_iff hdistinct]
        exact hmade _
    | _ => exact ⟨nofun, nofun⟩
  spelled_encode y := .object (hmembers.spelled_encode (parts y))
  distinct_encode y :=
    .object (hmembers.keys_encode (parts y) ▸ hkeys (parts y)) (hmembers.distinct_encode (parts y))

theorem Faithful.uint8 : Format.uint8.Faithful fun n d => d = .integer n.toNat := by
  refine .integer (fun n => ?_) (fun n => ?_) fun n hlow hhigh => ?_
  · have hlt := n.toNat_lt
    omega
  · simp
  · rw [UInt8.toNat_ofNat']
    omega

theorem Faithful.uint32 : Format.uint32.Faithful fun n d => d = .integer n.toNat := by
  refine .integer (fun n => ?_) (fun n => ?_) fun n hlow hhigh => ?_
  · have hlt := n.toNat_lt
    omega
  · simp
  · rw [UInt32.toNat_ofNat']
    omega

theorem Faithful.int8 : Format.int8.Faithful fun n d => d = .integer n.toInt := by
  refine .integer (fun n => ?_) Int8.ofInt_toInt fun n hlow hhigh => ?_
  · have hle := n.le_toInt
    have hlt := n.toInt_lt
    omega
  · rw [Int8.toInt_ofInt, show Int8.size = 256 from rfl]
    exact Int.bmod_eq_of_le (by omega) (by omega)

end Format

/-! ### The formats of this library -/

theorem Bandwidth.faithful : Bandwidth.format.Faithful fun w => SpellsName w.name :=
  .named (fun w => by cases w <;> decide) (by decide)

theorem SpreadingFactor.faithful :
    SpreadingFactor.format.Faithful fun s => SpellsName s.name :=
  .named (fun s => by cases s <;> decide) (by decide)

theorem CodingRate.faithful : CodingRate.format.Faithful fun c => SpellsName c.name :=
  .named (fun c => by cases c <;> decide) (by decide)

theorem Mode.faithful : Mode.format.Faithful fun m => SpellsName m.name :=
  .named (fun m => by cases m <;> decide) (by decide)

theorem Modulation.faithful : Modulation.format.Faithful Modulation.Spelled :=
  .record (.cons "sf" SpreadingFactor.faithful <| .cons "bw" Bandwidth.faithful <|
      .cons "cr" CodingRate.faithful <| .cons "ldro" .bool .none)
    (fun _ => rfl) (fun _ => rfl) (fun _ => by simp)

theorem Channel.faithful : Channel.format.Faithful Channel.Spelled :=
  .record (.cons "frequency" .uint32 <| .cons "bb" Modulation.faithful .none)
    (fun _ => rfl) (fun _ => rfl) (fun _ => by simp)

theorem Operation.faithful : Operation.format.Faithful Operation.Spelled :=
  .record (.cons "rf" Channel.faithful <| .cons "tx_power" .int8 <| .cons "len" .uint8 <|
      .cons "rx_time" .uint32 <| .cons "fcnt_up" .uint32 <| .cons "adr_ack_req" .bool .none)
    (fun _ => rfl) (fun _ => rfl) (fun _ => by simp)

/-- Reading accepts the spellings of a value and refuses every other document. What is written is
read back, and what was read is written in the same way ever after. -/
theorem formats_exact :
    (Bandwidth.format.Exact fun w => SpellsName w.name) ∧
      (SpreadingFactor.format.Exact fun s => SpellsName s.name) ∧
      (CodingRate.format.Exact fun c => SpellsName c.name) ∧
      (Mode.format.Exact fun m => SpellsName m.name) ∧
      Modulation.format.Exact Modulation.Spelled ∧ Channel.format.Exact Channel.Spelled ∧
      Operation.format.Exact Operation.Spelled :=
  ⟨Bandwidth.faithful.exact, SpreadingFactor.faithful.exact, CodingRate.faithful.exact,
    Mode.faithful.exact, Modulation.faithful.exact, Channel.faithful.exact,
    Operation.faithful.exact⟩

/-- A descriptor as an array, its channel as an object that holds a note as well and has its
members in another order. The low data rate flag is not the regular one. -/
theorem operation_in_mixed_forms :
    let modulation : Document := .array
      [.object [("_12", .null)], .text "_125KHz", .text "_4_5", .bool false]
    let channel : Document := .object
      [("bb", modulation), ("note", .decimal 15 (-1)), ("frequency", .integer 868100000)]
    let d : Document := .array [channel, .integer (-4), .integer 255, .integer 0, .integer 7,
      .bool true]
    let op : Operation :=
      { channel := ⟨868100000, ⟨.sf12, .khz125, .fourFifths, false⟩⟩, power := -4, length := 255,
        uplinkCounter := 7, rateAckRequested := true }
    d.Distinct ∧ op.Spelled d ∧ Operation.format.decode? d = some op := by
  intro modulation channel d op
  have hmodulation : op.channel.modulation.Spelled modulation :=
    .array (.cons .keyed (.cons .bare (.cons .bare (.cons rfl .nil))))
  have hchannel : op.channel.Spelled channel := by
    refine .object (List.forall_mem_cons.mpr ⟨⟨_, ?_, rfl⟩, List.forall_mem_cons.mpr
      ⟨⟨modulation, .head _, hmodulation⟩, nofun⟩⟩)
    exact .tail _ (.tail _ (.head _))
  have hspelled : op.Spelled d :=
    .array (.cons hchannel (.cons rfl (.cons rfl (.cons rfl (.cons rfl (.cons rfl .nil))))))
  have hdistinct : d.Distinct := by
    refine .array ?_
    simp only [List.forall_mem_cons]
    refine ⟨.object (by decide) ?_, .integer _, .integer _, .integer _, .integer _, .bool _, nofun⟩
    simp only [List.forall_mem_cons]
    refine ⟨.array ?_, .decimal _ _, .integer _, nofun⟩
    simp only [List.forall_mem_cons]
    refine ⟨.object (by decide) ?_, .text _, .text _, .bool _, nofun⟩
    exact List.forall_mem_singleton.mpr .null
  obtain ⟨-, -, -, -, -, -, hexact⟩ := formats_exact
  exact ⟨hdistinct, hspelled, (hexact.decode_iff hdistinct op).mpr hspelled⟩

end Transceiver
