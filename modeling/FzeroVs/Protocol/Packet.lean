import FzeroVs.Protocol.Bytes

namespace FzeroVs

/-- There are four slots, numbered from zero. -/
instance slotted : NeZero 4 := ⟨by decide⟩

inductive Kind
  | hello | welcome | command | state | snapshot | ping | pong | error | joinReject | roomClosed
  deriving DecidableEq, Repr

/-- The message type byte of the header. -/
def Kind.code : Kind → UInt8
  | .hello => 1
  | .welcome => 2
  | .command => 3
  | .state => 4
  | .snapshot => 5
  | .ping => 6
  | .pong => 7
  | .error => 8
  | .joinReject => 9
  | .roomClosed => 10

inductive Reject
  | password | full | racing | starting | version
  deriving DecidableEq, Repr

def Reject.code : Reject → UInt8
  | .password => 1
  | .full => 2
  | .racing => 3
  | .starting => 4
  | .version => 5

inductive Command
  | select | loaded | arm | finish | next | config | leave
  deriving DecidableEq, Repr

def Command.code : Command → UInt8
  | .select => 1
  | .loaded => 2
  | .arm => 3
  | .finish => 4
  | .next => 5
  | .config => 6
  | .leave => 7

/-- The `switch` over the command byte; `none` is its default branch. -/
def Command.ofCode (b : UInt8) : Option Command :=
  [none, some .select, some .loaded, some .arm, some .finish, some .next, some .config,
    some .leave].getD b.toNat none

@[simp] theorem Command.ofCode_code (c : Command) : Command.ofCode c.code = some c := by
  cases c <;> rfl

inductive Phase
  | lobby | loading | countdown | racing | results
  deriving DecidableEq, Repr

/-- Position in the order of a race; the wire carries it as one byte. -/
def Phase.rank : Phase → Nat
  | .lobby => 0
  | .loading => 1
  | .countdown => 2
  | .racing => 3
  | .results => 4

def Phase.code (p : Phase) : UInt8 := UInt8.ofNat p.rank

def Phase.ofCode (b : UInt8) : Option Phase :=
  [Phase.lobby, .loading, .countdown, .racing, .results][b.toNat]?

@[simp] theorem Phase.ofCode_code (p : Phase) : Phase.ofCode p.code = some p := by
  cases p <;> rfl

theorem Phase.rank_injective : Function.Injective Phase.rank := by
  intro p q same
  cases p <;> cases q <;> first | rfl | exact absurd same (by decide)

inductive Status
  | empty | joined | selected | loaded | racing | finished | disconnected
  deriving DecidableEq, Repr

def Status.rank : Status → Nat
  | .empty => 0
  | .joined => 1
  | .selected => 2
  | .loaded => 3
  | .racing => 4
  | .finished => 5
  | .disconnected => 6

def Status.code (s : Status) : UInt8 := UInt8.ofNat s.rank

def Status.ofCode (b : UInt8) : Option Status :=
  [Status.empty, .joined, .selected, .loaded, .racing, .finished, .disconnected][b.toNat]?

@[simp] theorem Status.ofCode_code (s : Status) : Status.ofCode s.code = some s := by
  cases s <;> rfl

/-- `fz_packet`. The payload array is zero initialised before every use, so a
list holds its written part and reads past the end yield zero. -/
structure Packet where
  type : UInt8 := 0
  length : UInt16 := 0
  session : UInt64 := 0
  token : UInt64 := 0
  race : UInt32 := 0
  seq : UInt32 := 0
  ack : UInt32 := 0
  payload : List UInt8 := []
  deriving DecidableEq, Repr

def Packet.byte (p : Packet) (k : Nat) : UInt8 := p.payload.getD k 0

/-- The first `length` bytes of the payload array. -/
def Packet.body (p : Packet) : List UInt8 := (List.range p.length.toNat).map p.byte

def Packet.is (p : Packet) (kind : Kind) : Bool := p.type == kind.code

/-- ASCII `FZVS`. -/
def magic : List UInt8 := [70, 90, 86, 83]

def version : UInt8 := 1

/-- `FZ_HEADER`, `FZ_MAX_PACKET` and `FZ_KEY_MAX`. -/
def headerSize : Nat := 36

def maxPacket : Nat := 256

def keyMax : Nat := 64

/-- The bytes `fz_encode` writes: none where it returns zero. -/
def encode (capacity : Nat) (p : Packet) : List UInt8 :=
  let size := headerSize + p.length.toNat
  if maxPacket - headerSize < p.length.toNat ∨ capacity < size ∨ p.type < Kind.hello.code ∨
      Kind.roomClosed.code < p.type then []
  else
    magic ++ [version, p.type] ++ put16 p.length ++ put64 p.session ++ put32 p.race ++
      put32 p.seq ++ put32 p.ack ++ put64 p.token ++ p.body

def decode (data : List UInt8) : Option Packet :=
  if data.length < headerSize ∨ maxPacket < data.length ∨ data.take 4 ≠ magic ∨
      data.getD 4 0 ≠ version ∨ data.getD 5 0 < Kind.hello.code ∨
      Kind.roomClosed.code < data.getD 5 0 ∨
      (u16 (data.drop 6)).toNat ≠ data.length - headerSize then none
  else
    some
      { type := data.getD 5 0
        length := u16 (data.drop 6)
        session := u64 (data.drop 8)
        race := u32 (data.drop 16)
        seq := u32 (data.drop 20)
        ack := u32 (data.drop 24)
        token := u64 (data.drop 28)
        payload := data.drop headerSize }

/-- The packets the two programs build: a known type and exactly as many
payload bytes as the length field announces. -/
structure Packet.Framed (p : Packet) : Prop where
  kind : ∃ kind : Kind, p.type = kind.code
  length : p.length.toNat = p.payload.length
  fits : p.payload.length ≤ maxPacket - headerSize

theorem Packet.body_length (p : Packet) : p.body.length = p.length.toNat := by
  simp [Packet.body]

theorem Packet.Framed.body_eq {p : Packet} (framed : p.Framed) : p.body = p.payload := by
  apply List.ext_getElem
  · rw [Packet.body_length, framed.length]
  · intro k _ bound
    simp [Packet.body, Packet.byte, List.getD_eq_getElem?_getD, List.getElem?_eq_getElem bound]

theorem Kind.code_range (kind : Kind) :
    ¬ kind.code < Kind.hello.code ∧ ¬ Kind.roomClosed.code < kind.code := by
  cases kind <;> decide

/-- The header as one list: every field at the offset where the decoder reads it. -/
theorem encode_eq {p : Packet} {capacity : Nat} (framed : p.Framed)
    (room : headerSize + p.payload.length ≤ capacity) :
    encode capacity p = magic ++ ([version, p.type] ++ (put16 p.length ++ (put64 p.session ++
      (put32 p.race ++ (put32 p.seq ++ (put32 p.ack ++ (put64 p.token ++ p.payload))))))) := by
  obtain ⟨kind, hkind⟩ := framed.kind
  have range := kind.code_range
  have short := framed.fits
  have same := framed.length
  simp only [encode]
  rw [if_neg]
  · simp only [framed.body_eq, List.append_assoc]
  · rw [hkind]
    simp only [range, or_false]
    omega

/-- What a framed packet carries survives the wire unchanged. -/
theorem decode_encode {p : Packet} (framed : p.Framed) : decode (encode maxPacket p) = some p := by
  obtain ⟨kind, hkind⟩ := framed.kind
  have range := kind.code_range
  have short := framed.fits
  have same := framed.length
  have limits : headerSize = 36 ∧ maxPacket = 256 := ⟨rfl, rfl⟩
  rw [encode_eq framed (by omega)]
  generalize hdata : magic ++ ([version, p.type] ++ (put16 p.length ++ (put64 p.session ++
    (put32 p.race ++ (put32 p.seq ++ (put32 p.ack ++ (put64 p.token ++ p.payload))))))) = data
  -- Each header field has a fixed size, so every offset is found by computation.
  have length : data.length = headerSize + p.payload.length := by
    subst hdata
    simp only [magic, headerSize, List.length_append, List.length_cons, List.length_nil,
      put16_length, put32_length, put64_length]
    omega
  have atType : data.getD 5 0 = p.type := by subst hdata; rfl
  have atLength : u16 (data.drop 6) = p.length := by subst hdata; exact u16_put16 _ _
  have atSession : u64 (data.drop 8) = p.session := by subst hdata; exact u64_put64 _ _
  have atRace : u32 (data.drop 16) = p.race := by subst hdata; exact u32_put32 _ _
  have atSeq : u32 (data.drop 20) = p.seq := by subst hdata; exact u32_put32 _ _
  have atAck : u32 (data.drop 24) = p.ack := by subst hdata; exact u32_put32 _ _
  have atToken : u64 (data.drop 28) = p.token := by subst hdata; exact u64_put64 _ _
  have atPayload : data.drop headerSize = p.payload := by subst hdata; rfl
  have atMagic : data.take 4 = magic := by subst hdata; rfl
  have atVersion : data.getD 4 0 = version := by subst hdata; rfl
  unfold decode
  rw [if_neg]
  · simp only [atType, atLength, atSession, atRace, atSeq, atAck, atToken, atPayload]
  · rw [atMagic, atVersion, atType, atLength, hkind, length]
    simp only [range, ne_eq, not_true_eq_false, false_or]
    omega

theorem Kind.exists_of_range {type : UInt8} (low : ¬ type < Kind.hello.code)
    (high : ¬ Kind.roomClosed.code < type) : ∃ kind : Kind, type = kind.code := by
  have lowN : type.toNat ≠ 0 := by simpa [UInt8.lt_iff_toNat_lt, Kind.code] using low
  have highN : type.toNat ≤ 10 := by simpa [UInt8.lt_iff_toNat_lt, Kind.code] using high
  have same : type = UInt8.ofNat type.toNat := by simp
  generalize type.toNat = n at *
  obtain h | h | h | h | h | h | h | h | h | h : n = 1 ∨ n = 2 ∨ n = 3 ∨ n = 4 ∨ n = 5 ∨ n = 6 ∨
      n = 7 ∨ n = 8 ∨ n = 9 ∨ n = 10 := by omega
  all_goals subst h
  exacts [⟨.hello, same⟩, ⟨.welcome, same⟩, ⟨.command, same⟩, ⟨.state, same⟩, ⟨.snapshot, same⟩,
    ⟨.ping, same⟩, ⟨.pong, same⟩, ⟨.error, same⟩, ⟨.joinReject, same⟩, ⟨.roomClosed, same⟩]

/-- Whatever the decoder accepts is framed. -/
theorem decode_framed {data : List UInt8} {p : Packet} (decoded : decode data = some p) : p.Framed := by
  unfold decode at decoded
  split at decoded
  · exact nomatch decoded
  next valid =>
    cases decoded
    simp only [not_or, ne_eq, not_not] at valid
    obtain ⟨long, short, _, _, low, high, length⟩ := valid
    refine ⟨Kind.exists_of_range low high, ?_, ?_⟩
    · simp only [List.length_drop]
      exact length
    · simp only [List.length_drop]
      omega

/-- Whatever is encoded keeps its type on the wire. -/
theorem decode_encode_type {p q : Packet} {capacity : Nat} (decoded : decode (encode capacity p) = some q) :
    q.type = p.type := by
  simp only [encode] at decoded
  split at decoded
  · simp [decode, headerSize] at decoded
  · unfold decode at decoded
    split at decoded
    · exact nomatch decoded
    · cases decoded
      rfl

end FzeroVs
