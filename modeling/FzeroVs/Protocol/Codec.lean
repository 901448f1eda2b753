import FzeroVs.Protocol.Packet

namespace FzeroVs

/-- What `fz_encode` asks of a packet and of the space for it. -/
structure Encodable (capacity : Nat) (p : Packet) : Prop where
  least : Kind.hello.code ≤ p.type
  most : p.type ≤ Kind.roomClosed.code
  short : p.length.toNat ≤ maxPacket - headerSize
  space : headerSize + p.length.toNat ≤ capacity

/-- What `fz_decode` asks of a datagram. -/
structure Decodable (data : List UInt8) : Prop where
  long : headerSize ≤ data.length
  short : data.length ≤ maxPacket
  name : data.take 4 = magic
  release : data.getD 4 0 = version
  least : Kind.hello.code ≤ data.getD 5 0
  most : data.getD 5 0 ≤ Kind.roomClosed.code
  length : (u16 (data.drop 6)).toNat = data.length - headerSize

/-- The packet with nothing in its payload array but what its length announces. -/
def Packet.trimmed (p : Packet) : Packet := { p with payload := p.body }

theorem Packet.byte_trimmed (p : Packet) (k : Nat) :
    p.trimmed.byte k = if k < p.length.toNat then p.byte k else 0 := by
  simp only [Packet.trimmed, Packet.byte, Packet.body, List.getD_eq_getElem?_getD, List.getElem?_map]
  split
  next inside => simp [List.getElem?_range inside, Packet.byte, List.getD_eq_getElem?_getD]
  next outside => simp [List.getElem?_eq_none (l := List.range p.length.toNat) (by simpa using outside)]

theorem Encodable.framed {p : Packet} {capacity : Nat} (fits : Encodable capacity p) : p.trimmed.Framed where
  kind := Kind.exists_of_range (UInt8.not_lt.mpr fits.least) (UInt8.not_lt.mpr fits.most)
  length := p.body_length.symm
  fits := p.body_length.trans_le fits.short

theorem encode_eq_nil {p : Packet} {capacity : Nat} (refused : ¬ Encodable capacity p) :
    encode capacity p = [] := by
  simp only [encode]
  rw [if_pos]
  by_contra accepted
  simp only [not_or, Nat.not_lt, UInt8.not_lt] at accepted
  exact refused ⟨accepted.2.2.1, accepted.2.2.2, accepted.1, accepted.2.1⟩

/-- Neither the bytes past the announced length nor more space than needed
show in the output. -/
theorem Encodable.encode_eq {p : Packet} {capacity : Nat} (fits : Encodable capacity p) :
    encode capacity p = encode maxPacket p.trimmed := by
  have short := fits.short
  have limits : headerSize = 36 ∧ maxPacket = 256 := ⟨rfl, rfl⟩
  have length : p.trimmed.payload.length = p.length.toNat := p.body_length
  rw [FzeroVs.encode_eq fits.framed (by omega)]
  simp only [encode]
  rw [if_neg]
  · simp only [Packet.trimmed, List.append_assoc]
  · have least := UInt8.not_lt.mpr fits.least
    have most := UInt8.not_lt.mpr fits.most
    have space := fits.space
    simp only [least, most, or_false]
    omega

theorem Encodable.length {p : Packet} {capacity : Nat} (fits : Encodable capacity p) :
    (encode capacity p).length = headerSize + p.length.toNat := by
  have short := fits.short
  have limits : headerSize = 36 ∧ maxPacket = 256 := ⟨rfl, rfl⟩
  have length : p.trimmed.payload.length = p.length.toNat := p.body_length
  rw [fits.encode_eq, FzeroVs.encode_eq fits.framed (by omega)]
  simp only [magic, List.length_append, List.length_cons, List.length_nil, put16_length, put32_length,
    put64_length, length]
  omega

theorem decode_eq_some_iff {data : List UInt8} : (∃ p, decode data = some p) ↔ Decodable data := by
  unfold decode
  split
  next refused =>
    refine ⟨fun found => ?_, fun valid => ?_⟩
    · obtain ⟨_, same⟩ := found
      exact nomatch same
    have least := UInt8.not_lt.mpr valid.least
    have most := UInt8.not_lt.mpr valid.most
    have long := valid.long
    have short := valid.short
    simp only [valid.name, valid.release, valid.length, ne_eq, not_true_eq_false, least, most, or_false] at refused
    omega
  next accepted =>
    simp only [not_or, Nat.not_lt, UInt8.not_lt, ne_eq, not_not] at accepted
    obtain ⟨long, short, name, release, least, most, length⟩ := accepted
    exact ⟨fun _ => ⟨long, short, name, release, least, most, length⟩, fun _ => ⟨_, rfl⟩⟩

/-- A string of bytes cut after the first `n` of those that start at `k`. -/
theorem drop_eq_take_append (data : List UInt8) (k n : Nat) :
    data.drop k = (data.drop k).take n ++ data.drop (k + n) := by
  rw [← List.drop_drop, List.take_append_drop]

/-- The header fields, read at their offsets and written one after the other,
make up the datagram again. -/
theorem Decodable.encode_eq {data : List UInt8} (valid : Decodable data) {p : Packet}
    (decoded : decode data = some p) : encode maxPacket p = data := by
  have framed := decode_framed decoded
  have long := valid.long
  have short := valid.short
  have limits : headerSize = 36 ∧ maxPacket = 256 := ⟨rfl, rfl⟩
  have room := framed.fits
  rw [FzeroVs.encode_eq framed (by omega)]
  have field (k n : Nat) (inside : k + n ≤ 36) : n ≤ (data.drop k).length := by
    rw [List.length_drop]
    omega
  unfold decode at decoded
  split at decoded
  · exact nomatch decoded
  cases decoded
  have tag : [version, data.getD 5 0] = (data.drop 4).take 2 := by
    rw [← valid.release]
    match data, (show 6 ≤ data.length by omega) with
    | _ :: _ :: _ :: _ :: _ :: _ :: _, _ => rfl
  rw [← valid.name, tag, put16_u16 (field 6 2 (by omega)), put64_u64 (field 8 8 (by omega)),
    put32_u32 (field 16 4 (by omega)), put32_u32 (field 20 4 (by omega)), put32_u32 (field 24 4 (by omega)),
    put64_u64 (field 28 8 (by omega)), limits.1, ← drop_eq_take_append data 28 8, ← drop_eq_take_append data 24 4,
    ← drop_eq_take_append data 20 4, ← drop_eq_take_append data 16 4, ← drop_eq_take_append data 8 8,
    ← drop_eq_take_append data 6 2, ← drop_eq_take_append data 4 2, List.take_append_drop]

/-- The two halves of the codec are inverse to each other on all that they
accept, and refuse the rest. -/
theorem codec_round_trip :
    (∀ (p : Packet) (capacity : Nat), Encodable capacity p →
      (encode capacity p).length = headerSize + p.length.toNat ∧
      ∃ q, decode (encode capacity p) = some q ∧ q.type = p.type ∧ q.length = p.length ∧
        q.session = p.session ∧ q.race = p.race ∧ q.seq = p.seq ∧ q.ack = p.ack ∧ q.token = p.token ∧
        (∀ k < p.length.toNat, q.byte k = p.byte k) ∧ ∀ k, p.length.toNat ≤ k → q.byte k = 0) ∧
    (∀ (p : Packet) (capacity : Nat), ¬ Encodable capacity p → encode capacity p = []) ∧
    (∀ data : List UInt8, (∃ q, decode data = some q) ↔ Decodable data) ∧
    ∀ (data : List UInt8) (q : Packet) (capacity : Nat), decode data = some q → data.length ≤ capacity →
      encode capacity q = data := by
  refine ⟨fun p capacity fits => ⟨fits.length, p.trimmed, ?_, rfl, rfl, rfl, rfl, rfl, rfl, rfl, ?_, ?_⟩,
    fun p capacity refused => encode_eq_nil refused, fun data => decode_eq_some_iff,
    fun data q capacity decoded room => ?_⟩
  · rw [fits.encode_eq]
    exact decode_encode fits.framed
  · intro k inside
    rw [p.byte_trimmed, if_pos inside]
  · intro k outside
    rw [p.byte_trimmed, if_neg (by omega)]
  · have valid := decode_eq_some_iff.mp ⟨q, decoded⟩
    have same := valid.encode_eq decoded
    have whole : Encodable maxPacket q := by
      by_contra refused
      rw [encode_eq_nil refused] at same
      have long := valid.long
      rw [← same] at long
      exact absurd long (by decide)
    have fits : Encodable capacity q := by
      have length := whole.length
      rw [same] at length
      exact ⟨whole.least, whole.most, whole.short, by omega⟩
    rw [fits.encode_eq, ← whole.encode_eq, same]

end FzeroVs
