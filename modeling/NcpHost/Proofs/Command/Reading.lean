import NcpHost.Proofs.Command.RoundTrip

/-! What a command that was read is written as: the bytes that it was read from. The reader takes the
fields from the front of the payload, one behind the other, and a field is written in one way only, so
that the packet of the command is what the reader took; read again, it gives the same command. This
needs nothing of the definition: a field that takes everything that is left leaves nothing for those
behind it, and an optional field is left out where the payload ends, whatever stands behind it. -/

namespace NcpHost.Command

/-- Reads fields as `readFields` does, and gives what it leaves of the payload. -/
def readLeaving (d : Definition) :
    List Field → List UInt8 → List (Option Value) → Except DecodeFault (Command × List UInt8)
  | [], data, read => .ok (⟨d, padTo d.fields.length read, false⟩, data)
  | f :: rest, data, read =>
    if f.optional && data.isEmpty then .ok (⟨d, padTo d.fields.length read, false⟩, data)
    else
      match f.type.decode data with
      | .ok (v, used) => readLeaving d rest (data.drop used) (read ++ [some v])
      | .error fault =>
        if d.kind == .response && reportsFailure d read then
          .ok (⟨d, padTo d.fields.length read, true⟩, data)
        else if data.isEmpty then .error (.truncated d.name f.name)
        else .error (.invalidField d.name f.name fault)

section

variable {d : Definition}

theorem readFields_eq (d : Definition) (fields : List Field) (data : List UInt8)
    (read : List (Option Value)) :
    readFields d fields data read = (readLeaving d fields data read).map (·.1) := by
  induction fields generalizing data read with
  | nil => rfl
  | cons f rest ih =>
    rw [readFields, readLeaving]
    split
    · rfl
    · cases f.type.decode data with
      | ok taken => exact ih _ _
      | error fault =>
        dsimp only
        split
        · rfl
        · split <;> rfl

theorem payload_padded (fields : List Field) (values : List Value) (count : Nat) :
    payload (fields.zip (values.map some ++ List.replicate count none))
      = payload (fields.zip (values.map some)) := by
  induction fields generalizing values with
  | nil => rfl
  | cons f rest ih =>
    cases values with
    | nil =>
      refine (payload_unset fun e he => ?_).1
      exact List.eq_of_mem_replicate (List.of_mem_zip he).2
    | cons v values => exact congrArg (f.type.encode v ++ ·) (ih values)

theorem drop_of_remaining {data : List UInt8} {v : Value} {used : Nat}
    (h : FieldType.remaining.decode data = .ok (v, used)) : data.drop used = [] := by
  obtain ⟨-, rfl⟩ := Prod.mk.inj (Except.ok.inj h)
  exact List.drop_length

theorem encode_ne_nil_of_decode {t : FieldType} {data : List UInt8} {v : Value} {used : Nat}
    (h : t.decode data = .ok (v, used)) (hdata : data ≠ []) : t.encode v ≠ [] := by
  refine FieldType.encode_ne_nil (FieldType.decode_sound h).2.1 ?_
  rintro rfl rfl
  obtain ⟨hv, -⟩ := Prod.mk.inj (Except.ok.inj h)
  exact hdata (Value.bytes.inj hv)

theorem not_left_out {f : Field} {data : List UInt8} {v : Value} {used : Nat}
    (hread : ¬(f.optional && data.isEmpty) = true) (h : f.type.decode data = .ok (v, used))
    (ho : f.optional = true) : f.type.encode v ≠ [] := by
  have hdata : data ≠ [] := by simpa [ho] using hread
  exact encode_ne_nil_of_decode h hdata

theorem readLeaving_sound {fields : List Field} {data : List UInt8} {read : List (Option Value)}
    {c : Command} {left : List UInt8} (h : readLeaving d fields data read = .ok (c, left))
    (hc : c.isPattern = false) :
    ∃ values : List Value, c = ⟨d, padTo d.fields.length (read ++ values.map some), false⟩
      ∧ data = payload (fields.zip (values.map some)) ++ left
      ∧ readFields d fields (payload (fields.zip (values.map some))) read = .ok c := by
  fun_induction readLeaving d fields data read with
  | case1 data read =>
    obtain ⟨rfl, rfl⟩ := Prod.mk.inj (Except.ok.inj h)
    exact ⟨[], by simp, rfl, rfl⟩
  | case2 f rest data read hskip =>
    obtain ⟨rfl, rfl⟩ := Prod.mk.inj (Except.ok.inj h)
    obtain ⟨hf, hdata⟩ := Bool.and_eq_true_iff.mp hskip
    refine ⟨[], by simp, rfl, ?_⟩
    simp [readFields, payload, hf]
  | case3 f rest data read hread v used hdecode ih =>
    obtain ⟨values, rfl, hsplit, hagain⟩ := ih h
    obtain ⟨-, hcheck, hwritten⟩ := FieldType.decode_sound hdecode
    have hpayload : payload ((f :: rest).zip ((v :: values).map some))
        = f.type.encode v ++ payload (rest.zip (values.map some)) := rfl
    -- what stands behind such a field was read from nothing
    have hlast : f.type = .remaining → payload (rest.zip (values.map some)) = [] := by
      intro hr
      rw [hr] at hdecode
      rw [drop_of_remaining hdecode] at hsplit
      exact (List.append_eq_nil_iff.mp hsplit.symm).1
    refine ⟨v :: values, by simp, ?_, ?_⟩
    · rw [hpayload, List.append_assoc, ← hsplit, hwritten, List.take_append_drop]
    · rw [hpayload, readFields_encode hcheck hlast (not_left_out hread hdecode)]
      exact hagain
  | case4 f rest data read hread fault hdecode hfailed =>
    obtain ⟨rfl, -⟩ := Prod.mk.inj (Except.ok.inj h)
    exact absurd hc.symm Bool.false_ne_true
  | case5 => cases h
  | case6 => cases h

end

/-- Whatever the definition and the packet: a complete command that was read has a packet, under the
header of its definition; its payload is the front of the payload that was read, up to where the reader
left it; and reading it gives the same command. -/
theorem toPacket_of_read (d : Definition) (packet : Packet) (c : Command)
    (h : ofPacket d packet = .ok c) (hc : c.isPattern = false) :
    ∃ taken left, readLeaving d d.fields packet.payload [] = .ok (c, left)
      ∧ packet.payload = taken ++ left
      ∧ c.toPacket = .ok (.ofHeader d.header taken)
      ∧ ofPacket d (.ofHeader d.header taken) = .ok c := by
  obtain ⟨left, hread⟩ : ∃ left, readLeaving d d.fields packet.payload [] = .ok (c, left) := by
    unfold ofPacket at h
    split at h
    · split at h
      · rw [readFields_eq] at h
        cases hread : readLeaving d d.fields packet.payload [] with
        | error fault =>
          rw [hread] at h
          exact absurd h nofun
        | ok result =>
          obtain ⟨c', left⟩ := result
          rw [hread] at h
          exact ⟨left, congrArg (fun c => Except.ok (c, left)) (Except.ok.inj h)⟩
      · exact absurd h nofun
    · exact absurd h nofun
  obtain ⟨values, hcommand, hsplit, hagain⟩ := readLeaving_sound hread hc
  have hnames : d.header.names d.header = true := by simp [CommandHeader.names]
  refine ⟨_, left, hread, hsplit, ?_, ?_⟩
  · have hentries : payload c.entries = payload (d.fields.zip (values.map some)) := by
      rw [hcommand]
      exact payload_padded d.fields values _
    rw [toPacket, hc, hentries, hcommand]
    rfl
  · simpa [ofPacket, Packet.ofHeader, hnames] using hagain

/-- An optional field stands before a required one, and the header of the packet has another version:
the command is written under the header of its definition, and without the byte behind the last field. -/
theorem toPacket_of_read_mixed :
    let d : Definition := ⟨"Mixed", .of .indication 7,
      [⟨"Flag", .bool, true⟩, ⟨"Text", .shortBytes, false⟩, ⟨"Level", .u16, true⟩], false, none⟩
    let packet : Packet := .ofHeader ⟨3, .indication, 7⟩ [1, 2, 0xAA, 0xBB, 0xFE, 0xFF, 0x55]
    let c : Command := ⟨d, [some (.bool true), some (.bytes [0xAA, 0xBB]), some (.uint 0xFFFE)], false⟩
    ofPacket d packet = .ok c ∧ c.isPattern = false
      ∧ ∃ taken left, readLeaving d d.fields packet.payload [] = .ok (c, left)
        ∧ packet.payload = taken ++ left
        ∧ c.toPacket = .ok (.ofHeader d.header taken)
        ∧ ofPacket d (.ofHeader d.header taken) = .ok c := by
  intro d packet c
  have hread : ofPacket d packet = .ok c := by rfl
  exact ⟨hread, rfl, toPacket_of_read d packet c hread rfl⟩

end NcpHost.Command
