import NcpHost.Proofs.Command.RoundTrip

/-! What holds of every command, however it came about: one value or none for each field, and no
value that its field refuses. A complete command lacks nothing but optional fields from some place
on. A pattern that was read from a packet is the response to a request that failed, with the fields
in front of the place where the payload ends. Writing relies on this: it never meets a value that it
would drop or cut down. -/

namespace NcpHost.Command

namespace Builder

def ofParams (d : Definition) (params : List (String × Value)) : Builder :=
  params.foldl (fun b (name, v) => b.param name v) (start d)

theorem ofParams_eq (d : Definition) (params : List (String × Value)) :
    ofParams d params = ⟨d, params⟩ := by
  suffices h : ∀ b : Builder, params.foldl (fun b (name, v) => b.param name v) b
      = { b with params := b.params ++ params } from h (start d)
  intro b
  induction params generalizing b with
  | nil => simp
  | cons p rest ih =>
    obtain ⟨name, v⟩ := p
    rw [List.foldl_cons, ih]
    simp [param]

end Builder

/-- The ways to a command of a definition. -/
inductive Obtained (d : Definition) : Command → Prop where
  | made {params : List (String × Value)} {c : Command} : make d params = .ok c → Obtained d c
  | madePattern {params : List (String × Value)} {c : Command} :
    makePattern d params = .ok c → Obtained d c
  | unset : Obtained d (anyOf d)
  | built {params : List (String × Value)} {c : Command} :
    (Builder.ofParams d params).build = .ok c → Obtained d c
  | builtPattern {params : List (String × Value)} {c : Command} :
    (Builder.ofParams d params).buildPattern = .ok c → Obtained d c
  | read {packet : Packet} {c : Command} : ofPacket d packet = .ok c → Obtained d c

def SetFirst (entries : List (Field × Option Value)) : Prop :=
  ∃ given left, entries = given ++ left ∧ (∀ e ∈ given, e.2 ≠ none) ∧ ∀ e ∈ left, e.2 = none

theorem SetFirst.filter {entries : List (Field × Option Value)} (h : SetFirst entries)
    (p : Field × Option Value → Bool) : SetFirst (entries.filter p) := by
  obtain ⟨given, left, rfl, hgiven, hleft⟩ := h
  refine ⟨given.filter p, left.filter p, List.filter_append .., fun e he => ?_, fun e he => ?_⟩
  · exact hgiven e (List.mem_filter.mp he).1
  · exact hleft e (List.mem_filter.mp he).1

theorem setFirst_of_pairwise {entries : List (Field × Option Value)}
    (h : entries.Pairwise fun before after => before.2 = none → after.2 = none) :
    SetFirst entries := by
  induction entries with
  | nil => exact ⟨[], [], rfl, fun _ he => absurd he List.not_mem_nil,
      fun _ he => absurd he List.not_mem_nil⟩
  | cons e rest ih =>
    obtain ⟨hfirst, hrest⟩ := List.pairwise_cons.mp h
    by_cases he : e.2 = none
    · refine ⟨[], e :: rest, rfl, fun _ he => absurd he List.not_mem_nil, ?_⟩
      rintro e' (_ | ⟨_, hm⟩)
      · exact he
      · exact hfirst e' hm he
    · obtain ⟨given, left, rfl, hgiven, hleft⟩ := ih hrest
      refine ⟨e :: given, left, rfl, ?_, hleft⟩
      rintro e' (_ | ⟨_, hm⟩)
      · exact he
      · exact hgiven e' hm

theorem setFirst_of_gapless {entries : List (Field × Option Value)}
    (h : entries.Pairwise Gapless) : SetFirst (entries.filter (·.1.optional)) := by
  refine setFirst_of_pairwise (List.pairwise_filter.mpr (h.imp ?_))
  exact fun hgapless hbefore hafter hnone => hgapless hbefore hnone hafter

/-- What was read from fields behind those read before: values for the first ones, and the others
were left. -/
structure ReadTo (d : Definition) (fields : List Field) (read : List (Option Value)) (c : Command)
    (given : List (Field × Value)) (left : List Field) : Prop where
  definition : c.definition = d
  fields : fields = given.map (·.1) ++ left
  values : c.values = padTo d.fields.length (read ++ given.map fun e => some e.2)
  checked : ∀ e ∈ given, e.1.type.check e.2 = .ok ()
  /-- Only in front of an optional field a complete command ends early. -/
  complete : c.isPattern = false → ∀ f ∈ left.head?, f.optional = true
  failed : c.isPattern = true → d.kind = .response
    ∧ reportsFailure d (read ++ given.map fun e => some e.2) = true

theorem readFields_readTo {d : Definition} {fields : List Field} {data : List UInt8}
    {read : List (Option Value)} {c : Command} (h : readFields d fields data read = .ok c) :
    ∃ given left, ReadTo d fields read c given left := by
  fun_induction readFields d fields data read with
  | case1 data read =>
    obtain rfl := Except.ok.inj h
    exact ⟨[], [], rfl, rfl, by simp, by simp, by simp, nofun⟩
  | case2 f rest data read hskip =>
    obtain rfl := Except.ok.inj h
    have hf : f.optional = true := (Bool.and_eq_true_iff.mp hskip).1
    exact ⟨[], f :: rest, rfl, rfl, by simp, by simp, by simp [hf], nofun⟩
  | case3 f rest data read hread v used hdecode ih =>
    obtain ⟨given, left, hg⟩ := ih h
    refine ⟨(f, v) :: given, left, hg.definition, congrArg (f :: ·) hg.fields, ?_, ?_, hg.complete,
      ?_⟩
    · simpa using hg.values
    · rintro e (_ | ⟨_, he⟩)
      · exact (FieldType.decode_sound hdecode).2.1
      · exact hg.checked e he
    · simpa using hg.failed
  | case4 f rest data read hread fault hdecode hfailed =>
    obtain rfl := Except.ok.inj h
    exact ⟨[], f :: rest, rfl, rfl, by simp, by simp, nofun, fun _ => by simpa using hfailed⟩
  | case5 => cases h
  | case6 => cases h

theorem ofPacket_readTo {d : Definition} {packet : Packet} {c : Command}
    (h : ofPacket d packet = .ok c) : ∃ given left, ReadTo d d.fields [] c given left :=
  readFields_readTo (readFields_of_ofPacket h)

section

variable {d : Definition} {c : Command} {given : List (Field × Value)} {left : List Field}

theorem ReadTo.values_eq (h : ReadTo d d.fields [] c given left) :
    c.values = (given.map fun e => some e.2) ++ left.map fun _ => none := by
  have hlen := congrArg List.length h.fields
  rw [List.length_append, List.length_map] at hlen
  rw [h.values, padTo, List.nil_append, List.length_map, hlen, Nat.add_sub_cancel_left,
    List.map_const']

theorem ReadTo.entries (h : ReadTo d d.fields [] c given left) :
    c.entries = (given.map fun e => (e.1, some e.2)) ++ left.map fun f => (f, none) := by
  have hleft : left.zip (left.map fun _ => (none : Option Value))
      = left.map fun f => (f, none) := by
    simpa using @List.zip_map' _ _ _ id (fun _ => (none : Option Value)) left
  rw [Command.entries, h.definition, h.fields, h.values_eq, List.zip_append (by simp),
    List.zip_map', hleft]

theorem ReadTo.slots (h : ReadTo d d.fields [] c given left) :
    c.values.length = c.definition.fields.length := by
  rw [h.values_eq, h.definition, h.fields]
  simp

theorem ReadTo.setFirst (h : ReadTo d d.fields [] c given left) : SetFirst c.entries := by
  refine ⟨_, _, h.entries, fun e he => ?_, fun e he => ?_⟩
  · obtain ⟨_, -, rfl⟩ := List.mem_map.mp he
    exact Option.some_ne_none _
  · obtain ⟨_, -, rfl⟩ := List.mem_map.mp he
    rfl

theorem ReadTo.mem_given (h : ReadTo d d.fields [] c given left) {f : Field} {v : Value}
    (hf : (f, some v) ∈ c.entries) : (f, v) ∈ given := by
  rw [h.entries, List.mem_append] at hf
  rcases hf with hf | hf
  · obtain ⟨e, he, heq⟩ := List.mem_map.mp hf
    obtain ⟨rfl, hv⟩ := Prod.mk.inj heq
    exact Option.some.inj hv ▸ he
  · obtain ⟨_, -, heq⟩ := List.mem_map.mp hf
    exact absurd (Prod.mk.inj heq).2 nofun

theorem ReadTo.mem_left (h : ReadTo d d.fields [] c given left) {f : Field}
    (hf : (f, none) ∈ c.entries) : f ∈ left := by
  rw [h.entries, List.mem_append] at hf
  rcases hf with hf | hf
  · obtain ⟨_, -, heq⟩ := List.mem_map.mp hf
    exact absurd (Prod.mk.inj heq).2 nofun
  · obtain ⟨f', hm, heq⟩ := List.mem_map.mp hf
    exact (Prod.mk.inj heq).1 ▸ hm

theorem ReadTo.optional_left (h : ReadTo d d.fields [] c given left) (ht : d.OptionalTrail)
    (hc : c.isPattern = false) {f : Field} (hf : f ∈ left) : f.optional = true := by
  cases left with
  | nil => exact absurd hf List.not_mem_nil
  | cons first rest =>
    have hfirst : first.optional = true := h.complete hc first rfl
    rcases List.mem_cons.mp hf with rfl | hm
    · exact hfirst
    · rw [Definition.OptionalTrail, h.fields] at ht
      exact (List.pairwise_cons.mp (List.pairwise_append.mp ht).2.1).1 f hm hfirst

theorem ReadTo.status (h : ReadTo d d.fields [] c given left) (hc : c.isPattern = true) :
    ∃ code, c.getUint? statusField = some code ∧ code ≠ 0 := by
  have hfailed := (h.failed hc).2
  unfold reportsFailure at hfailed
  split at hfailed
  · next code hread =>
    obtain ⟨i, hi, hcode⟩ := Option.bind_eq_some_iff.mp hread
    rw [List.nil_append] at hcode
    have hin : i < (given.map fun e => some e.2).length := by
      refine Nat.lt_of_not_le fun hout => ?_
      rw [List.getElem?_eq_none hout] at hcode
      exact absurd hcode nofun
    refine ⟨code, ?_, by simpa using hfailed⟩
    rw [getUint?, get?, h.definition, hi, h.values_eq, Option.bind_some,
      List.getElem?_append_left hin, hcode]
    rfl
  · exact absurd hfailed nofun

end

/-- One value or none for each field, and each fit for its field; and if the command is complete, a
value for each required field and for the first ones of the optional fields. -/
structure Represented (c : Command) : Prop where
  slots : c.values.length = c.definition.fields.length
  checked : ∀ f v, (f, some v) ∈ c.entries → f.type.check v = .ok ()
  required : c.isPattern = false → ∀ f, (f, none) ∈ c.entries → f.optional = true
  optional : c.isPattern = false → SetFirst (c.entries.filter (·.1.optional))

structure Failed (c : Command) : Prop where
  kind : c.kind = .response
  status : ∃ code, c.getUint? statusField = some code ∧ code ≠ 0
  setFirst : SetFirst c.entries

theorem represented_of_bind {d : Definition} {params : List (String × Value)} {isPattern : Bool}
    {c : Command} (h : bind d params isPattern = .ok c) : c.definition = d ∧ c.Represented := by
  obtain ⟨rfl, rfl, hlen, hchecked, hcomplete⟩ := bind_sound h
  exact ⟨rfl, hlen, hchecked, fun hc => (hcomplete hc).required,
    fun hc => setFirst_of_gapless (hcomplete hc).gapless⟩

theorem represented_anyOf (d : Definition) : (anyOf d).Represented where
  slots := by simp [anyOf]
  checked := by
    intro _ _ hf
    obtain ⟨_, -, heq⟩ := List.mem_map.mp (List.of_mem_zip hf).2
    exact absurd heq nofun
  required := nofun
  optional := nofun

theorem ReadTo.represented {d : Definition} {c : Command} {given : List (Field × Value)}
    {left : List Field} (h : ReadTo d d.fields [] c given left) (ht : d.OptionalTrail) :
    c.Represented where
  slots := h.slots
  checked f v hf := h.checked (f, v) (h.mem_given hf)
  required hc _ hf := h.optional_left ht hc (h.mem_left hf)
  optional _ := h.setFirst.filter _

theorem Obtained.represented {d : Definition} {c : Command} (h : Obtained d c)
    (ht : d.OptionalTrail) : c.definition = d ∧ c.Represented := by
  cases h with
  | made h => exact represented_of_bind h
  | madePattern h => exact represented_of_bind h
  | unset => exact ⟨rfl, represented_anyOf d⟩
  | built h =>
    rw [Builder.ofParams_eq] at h
    exact represented_of_bind h
  | builtPattern h =>
    rw [Builder.ofParams_eq] at h
    exact represented_of_bind h
  | read h =>
    obtain ⟨given, left, hread⟩ := ofPacket_readTo h
    exact ⟨hread.definition, hread.represented ht⟩

theorem failed_of_read {d : Definition} {packet : Packet} {c : Command}
    (h : ofPacket d packet = .ok c) (hc : c.isPattern = true) : c.Failed := by
  obtain ⟨given, left, hread⟩ := ofPacket_readTo h
  refine ⟨?_, hread.status hc, hread.setFirst⟩
  rw [kind, hread.definition]
  exact (hread.failed hc).1

theorem exists_toPacket_iff (c : Command) :
    (∃ packet, c.toPacket = .ok packet) ↔ c.isPattern = false := by
  unfold toPacket
  cases c.isPattern <;> simp

/-- However a command came about, its values represent one of its definition: each has its field,
and its field accepts it; a complete command sets every required field and the first ones of the
optional fields; a pattern that was read is a response with a status that is not zero, and sets the
first fields only. So exactly the complete commands have a packet, and whatever value is written is
read back from its bytes: none is dropped for its shape and none is cut down. -/
theorem obtained_represented (d : Definition) (ht : d.OptionalTrail) (c : Command)
    (h : Obtained d c) :
    c.definition = d ∧ c.Represented
      ∧ (∀ packet, ofPacket d packet = .ok c → c.isPattern = true → c.Failed)
      ∧ ((∃ packet, c.toPacket = .ok packet) ↔ c.isPattern = false)
      ∧ ∀ f v, (f, some v) ∈ c.entries →
        f.type.decode (f.type.encode v) = .ok (v, (f.type.encode v).length) := by
  obtain ⟨hd, hrepresented⟩ := h.represented ht
  refine ⟨hd, hrepresented, fun packet hread hc => failed_of_read hread hc, exists_toPacket_iff c,
    fun f v hf => ?_⟩
  have hnothing : f.type = .remaining → ([] : List UInt8) = [] := fun _ => rfl
  have hback := FieldType.decode_encode (hrepresented.checked f v hf) hnothing
  rwa [List.append_nil] at hback

/-- A response that is built one parameter at a time, with one of them given twice, and another one
that was read from a payload with a text that is broken off. -/
theorem obtained_represented_two_responses :
    let d : Definition := ⟨"Read.Rsp", .of .response 7,
      [⟨"TSN", .u8, false⟩, ⟨"StatusCode", .u16, false⟩, ⟨"Text", .shortBytes, false⟩,
        ⟨"Level", .u16, true⟩], false, none⟩
    let params := [("TSN", .uint 9), ("StatusCode", .uint 0), ("Text", .bytes [65]),
      ("TSN", .uint 7)]
    let packet : Packet := .ofHeader ⟨3, .response, 7⟩ [9, 3, 0, 5, 65]
    let c : Command := ⟨d, [some (.uint 7), some (.uint 0), some (.bytes [65]), none], false⟩
    let e : Command := ⟨d, [some (.uint 9), some (.uint 3), none, none], true⟩
    d.OptionalTrail ∧ (Builder.ofParams d params).build = .ok c ∧ c.Represented
      ∧ (∃ packet, c.toPacket = .ok packet)
      ∧ ofPacket d packet = .ok e ∧ e.Represented ∧ e.Failed
      ∧ ¬∃ packet, e.toPacket = .ok packet := by
  intro d params packet c e
  have ht : d.OptionalTrail := by decide
  have hbuilt : (Builder.ofParams d params).build = .ok c := by rfl
  have hread : ofPacket d packet = .ok e := by rfl
  obtain ⟨-, hc, -, hpacket, -⟩ := obtained_represented d ht c (.built hbuilt)
  obtain ⟨-, he, hfailed, hpacket', -⟩ := obtained_represented d ht e (.read hread)
  exact ⟨ht, hbuilt, hc, hpacket.mpr rfl, hread, he, hfailed packet hread rfl,
    fun hsome => absurd (hpacket'.mp hsome) nofun⟩

end NcpHost.Command
