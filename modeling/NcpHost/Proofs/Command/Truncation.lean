import NcpHost.Proofs.Command.RoundTrip

/-! What the reader makes of a payload that is cut short. It goes through the fields that are there in
full and stops at the first that is not, which is either missing or broken off. An optional field that
is missing ends the command; in the response to a failed request the status has been read by then, and
the fields in front of the cut make a pattern; everything else is refused. No field is ever read from
bytes that belong to another or are there in part. -/

namespace NcpHost.Command

def extent (c : Command) (count : Nat) : Nat := (payload (c.entries.take count)).length

/-- The command with the fields that lie within the first `k` bytes, and no others. -/
def upTo (c : Command) (k : Nat) : Command :=
  { c with values := c.values.mapIdx fun i v => if c.extent (i + 1) ≤ k then v else none }

def EndsAtField (c : Command) (k : Nat) : Prop := ∃ count, c.extent count = k

def RequiredWithin (c : Command) (k : Nat) : Prop :=
  ∀ (i : Nat) (f : Field), c.definition.fields[i]? = some f → f.optional = false →
    c.extent (i + 1) ≤ k

def FailureWithin (c : Command) (k : Nat) : Prop :=
  ∃ status, (c.upTo k).getUint? statusField = some status ∧ status ≠ 0

theorem payload_append (front back : List (Field × Option Value)) :
    payload (front ++ back) = payload front ++ payload back := by
  induction front with
  | nil => rfl
  | cons e rest ih =>
    obtain ⟨f, v⟩ := e
    cases v with
    | none => exact ih
    | some v =>
      rw [List.cons_append, payload, payload, ih, List.append_assoc]

/-- The first `k` bytes of the fields end in `f`: in front of it all fields are set and lie within these
bytes, and `f` does not. -/
structure Cut (entries : List (Field × Option Value)) (k : Nat)
    (before : List (Field × Option Value)) (f : Field) (v : Value)
    (after : List (Field × Option Value)) : Prop where
  split : entries = before ++ (f, some v) :: after
  given : ∀ e ∈ before, e.2 ≠ none
  starts : (payload before).length ≤ k
  ends : k < (payload before).length + (f.type.encode v).length

theorem exists_cut {entries : List (Field × Option Value)} (h : Readable entries) {k : Nat}
    (hk : k < (payload entries).length) : ∃ before f v after, Cut entries k before f v after := by
  induction entries generalizing k with
  | nil => exact absurd hk (Nat.not_lt_zero k)
  | cons e rest ih =>
    obtain ⟨f, v⟩ := e
    cases v with
    | none =>
      have hnil : payload ((f, none) :: rest) = [] := (payload_unset h.unset).1
      rw [hnil] at hk
      exact absurd hk (Nat.not_lt_zero k)
    | some v =>
      -- the cut is in this field or in those behind it
      by_cases hin : k < (f.type.encode v).length
      · exact ⟨[], f, v, rest, rfl, fun _ he => absurd he List.not_mem_nil, Nat.zero_le k,
          by simpa [payload] using hin⟩
      · have hlen : (payload ((f, some v) :: rest)).length
            = (f.type.encode v).length + (payload rest).length := List.length_append
        obtain ⟨before, g, w, after, hcut⟩ := ih h.tail (k := k - (f.type.encode v).length) (by omega)
        have hlong : (payload ((f, some v) :: before)).length
            = (f.type.encode v).length + (payload before).length := List.length_append
        have hstarts := hcut.starts
        have hends := hcut.ends
        refine ⟨(f, some v) :: before, g, w, after, congrArg _ hcut.split, fun e he => ?_,
          by omega, by omega⟩
        rcases List.mem_cons.mp he with rfl | he
        · exact Option.some_ne_none v
        · exact hcut.given e he

section

variable {c : Command} {k : Nat} {before after : List (Field × Option Value)} {f : Field} {v : Value}

theorem Cut.extent_of_le (h : Cut c.entries k before f v after) {count : Nat}
    (hc : count ≤ before.length) : c.extent count ≤ (payload before).length := by
  have htake : c.entries.take count = before.take count := by
    rw [h.split, List.take_append_of_le_length hc]
  have hall : payload before = payload (before.take count) ++ payload (before.drop count) := by
    rw [← payload_append, List.take_append_drop]
  rw [extent, htake, hall, List.length_append]
  omega

theorem Cut.extent_of_lt (h : Cut c.entries k before f v after) {count : Nat}
    (hc : before.length < count) : k < c.extent count := by
  obtain ⟨more, rfl⟩ := Nat.exists_eq_add_of_lt hc
  have htake : c.entries.take (before.length + more + 1)
      = before ++ (f, some v) :: after.take more := by
    rw [h.split, Nat.add_assoc, List.take_length_add_append, List.take_succ_cons]
  rw [extent, htake, payload_append, List.length_append, payload, List.length_append]
  have := h.ends
  omega

theorem Cut.extent_le_iff (h : Cut c.entries k before f v after) {count : Nat} :
    c.extent count ≤ k ↔ count ≤ before.length := by
  constructor
  · exact fun hle => Nat.le_of_not_lt fun hgt =>
      absurd (h.extent_of_lt hgt) (Nat.not_lt.mpr hle)
  · exact fun hle => Nat.le_trans (h.extent_of_le hle) h.starts

theorem Cut.extent_before (h : Cut c.entries k before f v after) :
    c.extent before.length = (payload before).length := by
  rw [extent, h.split, List.take_left]

theorem Cut.endsAtField_iff (h : Cut c.entries k before f v after) :
    c.EndsAtField k ↔ (payload before).length = k := by
  constructor
  · rintro ⟨count, rfl⟩
    exact Nat.le_antisymm h.starts (h.extent_of_le (h.extent_le_iff.mp (Nat.le_refl _)))
  · exact fun heq => ⟨before.length, h.extent_before.trans heq⟩

theorem Cut.field (h : Cut c.entries k before f v after)
    (hlen : c.values.length = c.definition.fields.length) :
    c.definition.fields = before.map (·.1) ++ f :: after.map (·.1) := by
  have hfields : c.entries.map (·.1) = c.definition.fields :=
    List.map_fst_zip (Nat.le_of_eq hlen.symm)
  rw [← hfields, h.split, List.map_append, List.map_cons]

theorem Cut.requiredWithin_iff (h : Cut c.entries k before f v after)
    (hlen : c.values.length = c.definition.fields.length) (ht : c.definition.OptionalTrail) :
    c.RequiredWithin k ↔ f.optional = true := by
  have hfields := h.field hlen
  constructor
  · intro hall
    cases ho : f.optional with
    | true => rfl
    | false =>
      have hf : c.definition.fields[before.length]? = some f := by simp [hfields]
      have hin := hall before.length f hf ho
      exact absurd (h.extent_le_iff.mp hin) (Nat.not_succ_le_self _)
  · intro ho i g hg hreq
    refine h.extent_le_iff.mpr (Nat.lt_of_not_le fun hge => ?_)
    rw [Definition.OptionalTrail, hfields] at ht
    have hbehind := (List.pairwise_append.mp ht).2.1
    have hmem : g ∈ f :: after.map (·.1) := by
      rw [hfields, List.getElem?_append_right (by simpa using hge)] at hg
      exact List.mem_of_getElem? hg
    have hopt : g.optional = true := by
      rcases List.mem_cons.mp hmem with rfl | hm
      · exact ho
      · exact (List.pairwise_cons.mp hbehind).1 g hm ho
    exact absurd (hopt.symm.trans hreq) nofun

theorem Cut.values_upTo (h : Cut c.entries k before f v after)
    (hlen : c.values.length = c.definition.fields.length) :
    (c.upTo k).values = padTo c.definition.fields.length (before.map (·.2)) := by
  have hvalues : c.values = before.map (·.2) ++ some v :: after.map (·.2) := by
    have hmap : c.entries.map (·.2) = c.values := List.map_snd_zip (Nat.le_of_eq hlen)
    rw [← hmap, h.split, List.map_append, List.map_cons]
  refine List.ext_getElem? fun i => ?_
  show (c.values.mapIdx _)[i]? = (before.map (·.2) ++ List.replicate _ none)[i]?
  rw [List.getElem?_mapIdx]
  by_cases hi : i < before.length
  · have hin : c.extent (i + 1) ≤ k := h.extent_le_iff.mpr hi
    rw [hvalues, List.getElem?_append_left (by simpa using hi),
      List.getElem?_append_left (by simpa using hi)]
    simp [hin, Function.comp_def]
  · have hout : ¬c.extent (i + 1) ≤ k := fun hin => hi (h.extent_le_iff.mp hin)
    rw [List.getElem?_append_right (by simpa using hi), List.getElem?_replicate]
    have hbefore : before.length ≤ c.values.length := by simp [hvalues]
    by_cases hlt : i < c.values.length
    · rw [List.getElem?_eq_getElem hlt, if_pos (by rw [List.length_map]; omega)]
      simp [hout]
    · rw [List.getElem?_eq_none (Nat.le_of_not_lt hlt),
        if_neg (by rw [List.length_map]; omega)]
      rfl

theorem Cut.failureWithin_iff (h : Cut c.entries k before f v after)
    (hlen : c.values.length = c.definition.fields.length) :
    c.FailureWithin k ↔ reportsFailure c.definition (before.map (·.2)) = true := by
  have hseen : (c.upTo k).get? statusField = (c.definition.indexOf? statusField).bind fun i =>
      ((before.map (·.2))[i]?).join := by
    refine congrArg (Option.bind (c.definition.indexOf? statusField)) (funext fun i => ?_)
    rw [h.values_upTo hlen, padTo]
    by_cases hi : i < before.length
    · rw [List.getElem?_append_left (by simpa using hi)]
    · rw [List.getElem?_append_right (by simpa using hi), List.getElem?_replicate,
        List.getElem?_eq_none (by simpa using hi)]
      split <;> rfl
  rw [FailureWithin, getUint?, hseen, reportsFailure]
  cases (c.definition.indexOf? statusField).bind fun i => ((before.map (·.2))[i]?).join with
  | none => simp
  | some status => cases status <;> simp [Value.asUint?]

end

theorem readFields_before {d : Definition} {before : List (Field × Option Value)}
    (hgiven : ∀ e ∈ before, e.2 ≠ none)
    (hcheck : ∀ f v, (f, some v) ∈ before → f.type.check v = .ok ())
    (hr : ∀ e ∈ before, e.1.type ≠ .remaining) (fields : List Field) (data : List UInt8)
    (read : List (Option Value)) :
    readFields d (before.map (·.1) ++ fields) (payload before ++ data) read
      = readFields d fields data (read ++ before.map (·.2)) := by
  induction before generalizing read with
  | nil => simp [payload]
  | cons e rest ih =>
    obtain ⟨f, v⟩ := e
    cases v with
    | none => exact absurd rfl (hgiven _ List.mem_cons_self)
    | some v =>
      have hf : f.type ≠ .remaining := hr _ List.mem_cons_self
      have hv := hcheck f v List.mem_cons_self
      have hne : f.type.encode v ≠ [] := FieldType.encode_ne_nil hv fun h => absurd h hf
      calc readFields d (f :: (rest.map (·.1) ++ fields))
            (f.type.encode v ++ payload rest ++ data) read
          = readFields d (rest.map (·.1) ++ fields) (payload rest ++ data) (read ++ [some v]) := by
            rw [List.append_assoc]
            exact readFields_encode hv (fun h => absurd h hf) fun _ => hne
        _ = readFields d fields data (read ++ [some v] ++ rest.map (·.2)) :=
            ih (fun e he => hgiven e (List.mem_cons_of_mem _ he))
              (fun g w he => hcheck g w (List.mem_cons_of_mem _ he))
              (fun e he => hr e (List.mem_cons_of_mem _ he)) _
        _ = readFields d fields data (read ++ (some v :: rest.map (·.2))) := by
            rw [List.append_assoc, List.singleton_append]

theorem readFields_take {d : Definition} {f : Field} {v : Value} {left : Nat}
    (hcheck : f.type.check v = .ok ()) (hr : f.type ≠ .remaining)
    (hleft : left < (f.type.encode v).length) (fields : List Field) (read : List (Option Value)) :
    ∃ fault, readFields d (f :: fields) ((f.type.encode v).take left) read
      = if f.optional = true ∧ left = 0 then .ok ⟨d, padTo d.fields.length read, false⟩
        else if d.kind = .response ∧ reportsFailure d read = true then
          .ok ⟨d, padTo d.fields.length read, true⟩
        else if left = 0 then .error (.truncated d.name f.name)
        else .error (.invalidField d.name f.name fault) := by
  obtain ⟨fault, hfault⟩ := FieldType.decode_take_encode hcheck hr hleft
  have hne : f.type.encode v ≠ [] := FieldType.encode_ne_nil hcheck fun h => absurd h hr
  refine ⟨fault, ?_⟩
  rw [readFields, hfault]
  simp [hne]

theorem Cut.ofPacket {c : Command} {k : Nat} {before after : List (Field × Option Value)} {f : Field}
    {v : Value} (h : Cut c.entries k before f v after)
    (hlen : c.values.length = c.definition.fields.length) (hp : c.isPattern = false)
    (hcheck : ∀ g w, (g, some w) ∈ c.entries → g.type.check w = .ok ())
    (hr : ∀ e ∈ c.entries, e.1.type ≠ .remaining) :
    ∃ fault, Command.ofPacket c.definition
        (.ofHeader c.definition.header ((payload c.entries).take k))
      = if f.optional = true ∧ (payload before).length = k then .ok (c.upTo k)
        else if c.definition.kind = .response
            ∧ reportsFailure c.definition (before.map (·.2)) = true then
          .ok { c.upTo k with isPattern := true }
        else if (payload before).length = k then .error (.truncated c.definition.name f.name)
        else .error (.invalidField c.definition.name f.name fault) := by
  have hf : (f, some v) ∈ c.entries := h.split ▸ List.mem_append_right _ List.mem_cons_self
  have hbefore : ∀ e ∈ before, e ∈ c.entries := fun e he =>
    h.split ▸ List.mem_append_left _ he
  have hstarts := h.starts
  have hends := h.ends
  have hleft : k - (payload before).length < (f.type.encode v).length := by omega
  have hmissing : k - (payload before).length = 0 ↔ (payload before).length = k := by omega
  have hcut : (payload c.entries).take k
      = payload before ++ (f.type.encode v).take (k - (payload before).length) := by
    have hwritten : payload c.entries
        = payload before ++ (f.type.encode v ++ payload after) := by
      rw [h.split, payload_append]
      rfl
    rw [hwritten, List.take_append, List.take_of_length_le hstarts,
      List.take_append_of_le_length (Nat.le_of_lt hleft)]
  have hwhole : Command.mk c.definition
      (padTo c.definition.fields.length (before.map (·.2))) false = c.upTo k := by
    rw [← h.values_upTo hlen, ← hp]
    rfl
  have hpattern : Command.mk c.definition
      (padTo c.definition.fields.length (before.map (·.2))) true
      = { c.upTo k with isPattern := true } := by
    rw [← h.values_upTo hlen]
    rfl
  -- the reader gets through all fields in front of the cut and stops at the one that is cut
  obtain ⟨fault, hstop⟩ := readFields_take (d := c.definition) (hcheck f v hf) (hr _ hf) hleft
    (after.map (·.1)) (before.map (·.2))
  refine ⟨fault, ?_⟩
  calc Command.ofPacket c.definition (.ofHeader c.definition.header ((payload c.entries).take k))
      = readFields c.definition (before.map (·.1) ++ f :: after.map (·.1))
          (payload before ++ (f.type.encode v).take (k - (payload before).length)) [] := by
        rw [ofPacket_of_names c.definition.header.names_self, hcut, h.field hlen]
    _ = readFields c.definition (f :: after.map (·.1))
          ((f.type.encode v).take (k - (payload before).length)) (before.map (·.2)) :=
        readFields_before h.given (fun g w he => hcheck g w (hbefore _ he))
          (fun e he => hr e (hbefore e he)) _ _ []
    _ = _ := by simp only [hstop, hwhole, hpattern, hmissing]

/-- A payload of which only the first bytes are there is never misread. The reader gives the command
with the fields that lie within these bytes if they end at a field and no required one is missing;
otherwise, if it is a response with a status among them that is not zero, the pattern of these fields;
otherwise it refuses the first field that is not there in full, and says whether it is missing or
broken off. -/
theorem ofPacket_take (d : Definition) (params : List (String × Value)) (c : Command)
    (ht : d.OptionalTrail) (hr : ∀ f ∈ d.fields, f.type ≠ .remaining)
    (hm : make d params = .ok c) :
    ∃ packet, c.toPacket = .ok packet ∧ ∀ k < packet.payload.length,
      let cut : Packet := { packet with payload := packet.payload.take k }
      let whole := c.EndsAtField k ∧ c.RequiredWithin k
      let failed := d.kind = .response ∧ c.FailureWithin k
      (c.upTo k).isPattern = false
        ∧ (whole → ofPacket d cut = .ok (c.upTo k))
        ∧ (¬whole → failed → ofPacket d cut = .ok { c.upTo k with isPattern := true })
        ∧ (¬whole → ¬failed → ∃ i f, d.fields[i]? = some f ∧ c.extent i ≤ k ∧ k < c.extent (i + 1)
          ∧ (c.extent i = k → ofPacket d cut = .error (.truncated d.name f.name))
          ∧ (c.extent i < k →
            ∃ fault, ofPacket d cut = .error (.invalidField d.name f.name fault))) := by
  obtain ⟨rfl, hp, hlen, hcomplete⟩ := make_complete hm
  have hfields : c.entries.map (·.1) = c.definition.fields :=
    List.map_fst_zip (Nat.le_of_eq hlen.symm)
  have hnot : ∀ e ∈ c.entries, e.1.type ≠ .remaining := fun e he =>
    hr e.1 (hfields ▸ List.mem_map_of_mem he)
  have hreadable : Readable c.entries := by
    refine ⟨hcomplete, hfields.symm ▸ ht, fun f hf => ?_, fun f hf _ => hnot _ hf⟩
    exact hr f (hfields ▸ List.dropLast_subset _ hf)
  refine ⟨_, toPacket_of_make hm, fun k hk => ?_⟩
  -- the field in which the payload is cut decides on all four outcomes
  obtain ⟨before, f, v, after, h⟩ := exists_cut hreadable hk
  obtain ⟨fault, hread⟩ := h.ofPacket hlen hp hcomplete.checked hnot
  have hwhole : c.EndsAtField k ∧ c.RequiredWithin k
      ↔ f.optional = true ∧ (payload before).length = k := by
    rw [h.endsAtField_iff, h.requiredWithin_iff hlen ht, And.comm]
  have hfailed := h.failureWithin_iff hlen
  refine ⟨hp, fun hw => ?_, fun hw hs => ?_, fun hw hs => ?_⟩
  · exact hread.trans (if_pos (hwhole.mp hw))
  · rw [if_neg (mt hwhole.mpr hw), if_pos ⟨hs.1, hfailed.mp hs.2⟩] at hread
    exact hread
  · rw [if_neg (mt hwhole.mpr hw), if_neg fun hr => hs ⟨hr.1, hfailed.mpr hr.2⟩] at hread
    refine ⟨before.length, f, by simp [h.field hlen], h.extent_le_iff.mpr (Nat.le_refl _),
      h.extent_of_lt (Nat.lt_succ_self _), fun heq => ?_, fun hlt => ⟨fault, ?_⟩⟩
    · exact hread.trans (if_pos (h.extent_before ▸ heq))
    · exact hread.trans (if_neg (h.extent_before ▸ Nat.ne_of_lt hlt))

/-- The response to a failed request, with a text behind its status and an optional level. -/
theorem ofPacket_take_failed_response :
    let d : Definition := ⟨"Read.Rsp", .of .response 7,
      [⟨"TSN", .u8, false⟩, ⟨"StatusCode", .u16, false⟩, ⟨"Text", .shortBytes, false⟩,
        ⟨"Level", .u16, true⟩], false, none⟩
    let params := [("Level", .uint 300), ("TSN", .uint 9), ("StatusCode", .uint 3),
      ("Text", .bytes [65, 66])]
    let c : Command :=
      ⟨d, [some (.uint 9), some (.uint 3), some (.bytes [65, 66]), some (.uint 300)], false⟩
    d.OptionalTrail ∧ (∀ f ∈ d.fields, f.type ≠ .remaining) ∧ make d params = .ok c
      ∧ ∃ packet, c.toPacket = .ok packet ∧ ∀ k < packet.payload.length,
        let cut : Packet := { packet with payload := packet.payload.take k }
        let whole := c.EndsAtField k ∧ c.RequiredWithin k
        let failed := d.kind = .response ∧ c.FailureWithin k
        (c.upTo k).isPattern = false
          ∧ (whole → ofPacket d cut = .ok (c.upTo k))
          ∧ (¬whole → failed → ofPacket d cut = .ok { c.upTo k with isPattern := true })
          ∧ (¬whole → ¬failed → ∃ i f, d.fields[i]? = some f ∧ c.extent i ≤ k
            ∧ k < c.extent (i + 1)
            ∧ (c.extent i = k → ofPacket d cut = .error (.truncated d.name f.name))
            ∧ (c.extent i < k →
              ∃ fault, ofPacket d cut = .error (.invalidField d.name f.name fault))) := by
  intro d params c
  have ht : d.OptionalTrail := by decide
  have hr : ∀ f ∈ d.fields, f.type ≠ .remaining := by decide
  have hm : make d params = .ok c := by rfl
  exact ⟨ht, hr, hm, ofPacket_take d params c ht hr hm⟩

end NcpHost.Command
