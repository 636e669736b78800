import Getty.Verified.LittleEndian
import Getty.Transport.TcpChannel
import Getty.Transport.TcpConservation

/-!
# The echo package

The package format of the echo example: a header of fixed size, written by
`encoding/binary` field by field in little-endian order, the length of the body in one
byte, and the body.  `EchoPackageHandler` is the `Reader` and `Writer` for it.

A package that states its own length correctly comes back from the decoder as it was, and
the decoder asks for more as long as it is not complete, so the handler is a `ReadWriter`
for these packages (`echoPkgHandler`).

The decoder is given whatever a peer sends.  `H.Len` decides how much of the data a package
takes up, but the byte after the header decides how long the body is, and the two are not
compared.  `read_accepts_iff` says exactly what is accepted.

## Main results

* `binaryRead_binaryWrite` — the header is read back.
* `read_accepts_iff` — what the decoder accepts.
* `echoPkgHandler` — the handler fulfils the contract of a `ReadWriter`.
* `echo_format_exact` — the round trip, in both directions.
-/

namespace Getty.Echo

open Getty.Transport Getty.Verified

/-! ## Data -/

def echoPkgMagic : UInt32 := 0x20160905

def maxEchoStringLen : UInt16 := 0xff

/-- The errors of `Unmarshal`. -/
inductive Err where
  | notEnoughStream
  | tooLargePackage
  | illegalMagic
  deriving Repr, DecidableEq

def Err.text : Err → String
  | .notEnoughStream => "packet stream is not enough"
  | .tooLargePackage => "package length is exceed the echo package's legal maximum length"
  | .illegalMagic => "package magic is not right"

/-- `EchoPkgHeader`, without its two blank fields. -/
structure EchoPkgHeader where
  magic : UInt32
  logID : UInt32
  sequence : UInt32
  serviceID : UInt32
  command : UInt32
  code : Int32
  len : UInt16
  deriving Repr, DecidableEq

/-- `EchoPackage`; the Go string `B` is a sequence of bytes. -/
structure EchoPackage where
  h : EchoPkgHeader
  b : Bytes
  deriving Repr, DecidableEq

/-- `unsafe.Sizeof(EchoPkgHeader{})`. -/
def echoPkgHeaderLen : Nat := 32

/-! ## Encoding and decoding -/

/-- `binary.Write`; a blank field is written as zeros. -/
def binaryWrite (h : EchoPkgHeader) : Bytes :=
  LittleEndian.put 4 h.magic.toNat ++ (LittleEndian.put 4 h.logID.toNat ++
    (LittleEndian.put 4 h.sequence.toNat ++ (LittleEndian.put 4 h.serviceID.toNat ++
    (LittleEndian.put 4 h.command.toNat ++ (LittleEndian.put 4 h.code.toUInt32.toNat ++
    (LittleEndian.put 2 h.len.toNat ++ (LittleEndian.put 2 0 ++ LittleEndian.put 4 0)))))))

/-- `binary.Read` from a buffer that is long enough; a blank field is skipped. -/
def binaryRead (buf : Bytes) : EchoPkgHeader × Bytes :=
  let (magic, buf) := LittleEndian.read 4 buf
  let (logID, buf) := LittleEndian.read 4 buf
  let (sequence, buf) := LittleEndian.read 4 buf
  let (serviceID, buf) := LittleEndian.read 4 buf
  let (command, buf) := LittleEndian.read 4 buf
  let (code, buf) := LittleEndian.read 4 buf
  let (len, buf) := LittleEndian.read 2 buf
  let (_, buf) := LittleEndian.read 2 buf
  let (_, buf) := LittleEndian.read 4 buf
  (⟨.ofNat magic, .ofNat logID, .ofNat sequence, .ofNat serviceID, .ofNat command,
    (UInt32.ofNat code).toInt32, .ofNat len⟩, buf)

def EchoPackage.marshal (p : EchoPackage) : Bytes :=
  binaryWrite p.h ++ UInt8.ofNat p.b.length :: p.b

/-- `Unmarshal` after its checks: the length byte and the body.  Without a length byte it
returns zero and no error. -/
def unmarshalBody (h : EchoPkgHeader) : Bytes → EchoPackage × Nat
  | [] => (⟨h, []⟩, 0)
  | len :: buf => (⟨h, buf.take len.toNat⟩, h.len.toNat + echoPkgHeaderLen)

/-- `Unmarshal`: the package and the length it returns, or its error. -/
def unmarshal (buf : Bytes) : Except Err (EchoPackage × Nat) :=
  if buf.length < echoPkgHeaderLen then .error .notEnoughStream
  else
    let (h, buf) := binaryRead buf
    if h.magic ≠ echoPkgMagic then .error .illegalMagic
    else if buf.length < h.len.toNat then .error .notEnoughStream
    else if maxEchoStringLen < h.len - 1 then .error .tooLargePackage
    else .ok (unmarshalBody h buf)

/-- `EchoPackageHandler.Read`. -/
def read (data : Bytes) : ReadResult EchoPackage :=
  match unmarshal data with
  | .error .notEnoughStream => ⟨none, 0, none⟩
  | .error err => ⟨none, 0, some err.text⟩
  | .ok (pkg, len) => ⟨some pkg, len, none⟩

/-- `EchoPackageHandler.Write`, for an `*EchoPackage`. -/
def write (p : EchoPackage) : Bytes := p.marshal

/-! ## The header -/

theorem length_binaryWrite (h : EchoPkgHeader) : (binaryWrite h).length = echoPkgHeaderLen := by
  simp [binaryWrite, echoPkgHeaderLen]

/-- **The header is read back.** -/
theorem binaryRead_binaryWrite (h : EchoPkgHeader) (rest : Bytes) :
    binaryRead (binaryWrite h ++ rest) = (h, rest) := by
  have h32 : ∀ x : UInt32, x.toNat < 256 ^ 4 := fun x => x.toNat_lt
  have h16 : ∀ x : UInt16, x.toNat < 256 ^ 2 := fun x => x.toNat_lt
  simp only [binaryWrite, binaryRead, List.append_assoc, LittleEndian.read_put (h32 _),
    LittleEndian.read_put (h16 _), LittleEndian.read_put (show 0 < 256 ^ 2 by decide),
    LittleEndian.read_put (show 0 < 256 ^ 4 by decide), UInt32.ofNat_toNat, UInt16.ofNat_toNat]
  rfl

private theorem binaryRead_snd (buf : Bytes) : (binaryRead buf).2 = buf.drop echoPkgHeaderLen := by
  simp [binaryRead, LittleEndian.read, echoPkgHeaderLen]

/-- The fields of the header, and the blank ones if they are zero, stand in the data. -/
private theorem binaryWrite_binaryRead {buf : Bytes} (hlen : echoPkgHeaderLen ≤ buf.length)
    (hblank : (buf.drop 26).take 6 = List.replicate 6 0) :
    binaryWrite (binaryRead buf).1 = buf.take echoPkgHeaderLen := by
  simp only [echoPkgHeaderLen] at hlen ⊢
  have hfield : ∀ {w : Nat} {d : Bytes}, w ≤ d.length →
      LittleEndian.put w (LittleEndian.read w d).1 = d.take w := by
    intro w d hd
    have h := LittleEndian.put_read hd
    rw [LittleEndian.read_snd] at h
    rw [← List.append_cancel_right (h.trans (List.take_append_drop w d).symm)]
  have h32 : ∀ d : Bytes, (UInt32.ofNat (LittleEndian.read 4 d).1).toNat =
      (LittleEndian.read 4 d).1 := fun d =>
    UInt32.toNat_ofNat_of_lt' (LittleEndian.read_fst_lt 4 d)
  have h16 : ∀ d : Bytes, (UInt16.ofNat (LittleEndian.read 2 d).1).toNat =
      (LittleEndian.read 2 d).1 := fun d =>
    UInt16.toNat_ofNat_of_lt' (LittleEndian.read_fst_lt 2 d)
  have hzero : LittleEndian.put 2 0 ++ LittleEndian.put 4 0 = (buf.drop 26).take 6 := by
    rw [hblank]
    rfl
  simp only [binaryWrite, binaryRead, LittleEndian.read_snd, List.drop_drop, h32, h16, hzero,
    UInt32.toUInt32_toInt32]
  rw [hfield (by omega), hfield (by simp; omega), hfield (by simp; omega),
    hfield (by simp; omega), hfield (by simp; omega), hfield (by simp; omega),
    hfield (by simp; omega)]
  -- the nine pieces of the header, joined from the last one on
  have hjoin : ∀ i w n, (buf.drop i).take w ++ (buf.drop (i + w)).take n =
      (buf.drop i).take (w + n) := by
    intro i w n
    rw [List.take_add, List.drop_drop]
  rw [hjoin 24 2 6, hjoin 20 4 8, hjoin 16 4 12, hjoin 12 4 16, hjoin 8 4 20, hjoin 4 4 24]
  exact hjoin 0 4 28

/-! ## What the decoder accepts -/

/-- The data begins with a package: the magic number is right, the length is in range and
covered by the data, and the body has as many of the following bytes as the byte after the
header says, if there are so many. -/
structure Accepted (data : Bytes) (p : EchoPackage) (n : Int) : Prop where
  header : p.h = (binaryRead data).1
  magic : p.h.magic = echoPkgMagic
  pos : 0 < p.h.len.toNat
  max : p.h.len.toNat ≤ 256
  whole : echoPkgHeaderLen + p.h.len.toNat ≤ data.length
  body : ∃ len rest, data.drop echoPkgHeaderLen = len :: rest ∧ p.b = rest.take len.toNat
  length : n = (echoPkgHeaderLen + p.h.len.toNat : Nat)

/-- The size check on `uint16`: zero wraps around and is too large as well. -/
private theorem size_check_iff (len : UInt16) :
    ¬ maxEchoStringLen < len - 1 ↔ 0 < len.toNat ∧ len.toNat ≤ 256 := by
  have hlt := len.toNat_lt
  rw [UInt16.lt_iff_toNat_lt, UInt16.toNat_sub]
  have h1 : maxEchoStringLen.toNat = 255 := rfl
  have h2 : (1 : UInt16).toNat = 1 := rfl
  rw [h1, h2]
  omega

/-- `Unmarshal` from the data on, once the header is there. -/
theorem unmarshal_of_le {data : Bytes} (h : echoPkgHeaderLen ≤ data.length) :
    unmarshal data =
      if (binaryRead data).1.magic ≠ echoPkgMagic then .error .illegalMagic
      else if (data.drop echoPkgHeaderLen).length < (binaryRead data).1.len.toNat then
        .error .notEnoughStream
      else if maxEchoStringLen < (binaryRead data).1.len - 1 then .error .tooLargePackage
      else .ok (unmarshalBody (binaryRead data).1 (data.drop echoPkgHeaderLen)) := by
  rw [unmarshal, if_neg (by omega)]
  simp only [← binaryRead_snd]

private theorem unmarshal_ok_iff (data : Bytes) (p : EchoPackage) (n : Nat) :
    unmarshal data = .ok (p, n) ↔ Accepted data p n := by
  by_cases hlen : data.length < echoPkgHeaderLen
  · constructor
    · intro h
      rw [unmarshal, if_pos hlen] at h
      cases h
    · intro h
      have := h.whole
      omega
  · rw [unmarshal_of_le (by omega)]
    constructor
    · intro h
      split at h
      · cases h
      · next hmagic =>
          split at h
          · cases h
          · next hwhole =>
              split at h
              · cases h
              · next hsize =>
                  obtain ⟨hpos, hmax⟩ := (size_check_iff _).mp hsize
                  rw [List.length_drop] at hwhole
                  cases hbuf : data.drop echoPkgHeaderLen with
                  | nil =>
                      have := congrArg List.length hbuf
                      rw [List.length_drop, List.length_nil] at this
                      omega
                  | cons len rest =>
                      rw [hbuf, unmarshalBody, Except.ok.injEq, Prod.mk.injEq] at h
                      obtain ⟨rfl, rfl⟩ := h
                      exact ⟨rfl, not_not.mp hmagic, hpos, hmax, by dsimp only; omega,
                        ⟨len, rest, hbuf, rfl⟩, by dsimp only; omega⟩
    · rintro ⟨hheader, hmagic, hpos, hmax, hwhole, ⟨len, rest, hcons, hbody⟩, hn⟩
      obtain ⟨h, b⟩ := p
      dsimp only at hheader hmagic hpos hmax hwhole hbody hn
      subst hheader hbody
      have hdrop : (data.drop echoPkgHeaderLen).length = data.length - echoPkgHeaderLen :=
        List.length_drop ..
      rw [if_neg (not_not.mpr hmagic), if_neg (by omega),
        if_neg ((size_check_iff _).mpr ⟨hpos, hmax⟩), hcons, unmarshalBody, Except.ok.injEq,
        Prod.mk.injEq]
      exact ⟨rfl, by omega⟩

/-- **What `Read` accepts.** -/
theorem read_accepts_iff (data : Bytes) (p : EchoPackage) (n : Int) :
    read data = ⟨some p, n, none⟩ ↔ Accepted data p n := by
  constructor
  · intro h
    unfold read at h
    split at h
    · cases h
    · cases h
    · next q m hok =>
        cases h
        exact (unmarshal_ok_iff data p m).mp hok
  · intro h
    have hn := h.length
    subst hn
    rw [read, (unmarshal_ok_iff data p _).mpr h]

/-- A package that states its own length, and has the right magic number. -/
structure EchoPackage.Legal (p : EchoPackage) : Prop where
  magic : p.h.magic = echoPkgMagic
  short : p.b.length ≤ 255
  len : p.h.len.toNat = p.b.length + 1

theorem length_marshal (p : EchoPackage) :
    p.marshal.length = echoPkgHeaderLen + (p.b.length + 1) := by
  rw [EchoPackage.marshal, List.length_append, length_binaryWrite, List.length_cons]

/-- A legal package at the front of the data is accepted. -/
theorem read_marshal {p : EchoPackage} (hp : p.Legal) (rest : Bytes) :
    read (p.marshal ++ rest) = ⟨some p, p.marshal.length, none⟩ := by
  have hlen := length_marshal p
  have hdata : p.marshal ++ rest =
      binaryWrite p.h ++ (UInt8.ofNat p.b.length :: (p.b ++ rest)) := by
    simp [EchoPackage.marshal]
  have hdrop : (p.marshal ++ rest).drop echoPkgHeaderLen =
      UInt8.ofNat p.b.length :: (p.b ++ rest) := by
    rw [hdata, ← length_binaryWrite p.h, List.drop_left]
  have hbyte : (UInt8.ofNat p.b.length).toNat = p.b.length := by
    have := hp.short
    rw [UInt8.toNat_ofNat']
    omega
  rw [read_accepts_iff]
  refine ⟨?_, hp.magic, by rw [hp.len]; omega, by have := hp.short; rw [hp.len]; omega, ?_,
    ⟨_, _, hdrop, by rw [hbyte, List.take_left]⟩, by rw [hlen, hp.len]⟩
  · rw [hdata, binaryRead_binaryWrite]
  · rw [List.length_append, hlen, hp.len]
    omega

/-- A beginning of a legal package is not enough. -/
theorem read_pending {p : EchoPackage} (hp : p.Legal) {data : Bytes} (hpre : data <+: p.marshal)
    (hlt : data.length < p.marshal.length) : read data = ⟨none, 0, none⟩ := by
  have hmore : unmarshal data = .error .notEnoughStream := by
    by_cases hlen : data.length < echoPkgHeaderLen
    · rw [unmarshal, if_pos hlen]
    · have hlen' : echoPkgHeaderLen ≤ data.length := by omega
      -- the header is complete, and it is the one of the package
      obtain ⟨body, rfl⟩ : ∃ body, data = binaryWrite p.h ++ body := by
        have hheader : binaryWrite p.h <+: data := by
          refine List.prefix_of_prefix_length_le ⟨_, rfl⟩ hpre ?_
          rw [length_binaryWrite]
          exact hlen'
        obtain ⟨body, hbody⟩ := hheader
        exact ⟨body, hbody.symm⟩
      rw [List.length_append, length_binaryWrite, length_marshal] at hlt
      have hdrop : (binaryWrite p.h ++ body).drop echoPkgHeaderLen = body := by
        rw [← length_binaryWrite p.h, List.drop_left]
      rw [unmarshal_of_le hlen', binaryRead_binaryWrite, hdrop, if_neg (not_not.mpr hp.magic),
        if_pos (by rw [hp.len]; omega)]
  rw [read, hmore]

/-- **The handler fulfils the contract of a `ReadWriter`** for legal packages. -/
def echoPkgHandler : Channel.ReadWriter EchoPackage where
  write := write
  read := read
  ok := EchoPackage.Legal
  write_ne_nil p _ h := by
    have := length_marshal p
    rw [show p.marshal = [] from h] at this
    simp [echoPkgHeaderLen] at this
  complete p data hp h := by
    obtain ⟨rest, rfl⟩ := h
    exact read_marshal hp rest
  pending p data hp _ hpre hlt := Or.inl (read_pending hp hpre hlt)

/-- **The echo format is exact.**  A legal package followed by anything is decoded to
itself and to its own length, and every proper beginning of it asks for more.  Conversely,
whatever `Read` accepts takes up between 33 and 288 bytes of the data; and if the length
byte agrees with `H.Len`, the package is legal, and those bytes are its encoding, provided
that the blank fields are zero. -/
theorem echo_format_exact :
    (∀ p : EchoPackage, p.Legal →
      (∀ rest, read (write p ++ rest) = ⟨some p, (write p).length, none⟩) ∧
      ∀ data, data <+: write p → data ≠ write p → read data = ⟨none, 0, none⟩) ∧
    ∀ data p n, read data = ⟨some p, n, none⟩ →
      (33 ≤ n ∧ n ≤ 288 ∧ n ≤ data.length) ∧
      ∀ len rest, data.drop echoPkgHeaderLen = len :: rest → len.toNat + 1 = p.h.len.toNat →
        p.Legal ∧ ((data.drop 26).take 6 = List.replicate 6 0 → data.take n.toNat = write p) := by
  refine ⟨fun p hp => ⟨read_marshal hp, fun data hpre hne => read_pending hp hpre ?_⟩, ?_⟩
  · refine Nat.lt_of_le_of_ne hpre.length_le fun heq => hne (hpre.eq_of_length heq)
  · intro data p n hread
    have hacc := (read_accepts_iff data p n).mp hread
    have hpos := hacc.pos
    have hmax := hacc.max
    have hwhole := hacc.whole
    have hn := hacc.length
    simp only [echoPkgHeaderLen] at hwhole hn
    refine ⟨by omega, fun len rest hcons hlen => ?_⟩
    obtain ⟨len', rest', hcons', hbody⟩ := hacc.body
    rw [hcons] at hcons'
    obtain ⟨rfl, rfl⟩ := List.cons.inj hcons'
    have hrest : data.length = echoPkgHeaderLen + (rest.length + 1) := by
      have := congrArg List.length hcons
      rw [List.length_drop, List.length_cons] at this
      simp only [echoPkgHeaderLen] at this ⊢
      omega
    have hblen : p.b.length = len.toNat := by
      simp only [echoPkgHeaderLen] at hrest
      rw [hbody, List.length_take]
      omega
    have hbyte := len.toNat_lt
    refine ⟨⟨hacc.magic, by omega, by omega⟩, fun hblank => ?_⟩
    -- the header, the length byte and the body, in this order
    have htail : UInt8.ofNat p.b.length :: p.b =
        (data.drop echoPkgHeaderLen).take (len.toNat + 1) := by
      rw [hcons, hblen, UInt8.ofNat_toNat, List.take_succ_cons, ← hbody]
    have hsplit : n.toNat = echoPkgHeaderLen + (len.toNat + 1) := by
      simp only [echoPkgHeaderLen]
      omega
    rw [write, EchoPackage.marshal, hacc.header,
      binaryWrite_binaryRead (by simp only [echoPkgHeaderLen]; omega) hblank, htail, hsplit,
      List.take_add]

/-- A heartbeat response with an empty body, as a client might send it. -/
def emptyPackage : EchoPackage := ⟨⟨echoPkgMagic, 1, 2, 3, 0, -1, 1⟩, []⟩

/-- The package comes back from a longer stream, and from 32 bytes it does not. -/
theorem echo_format_exact_empty :
    emptyPackage.Legal ∧ read (write emptyPackage ++ [9, 9]) = ⟨some emptyPackage, 33, none⟩ ∧
      read ((write emptyPackage).take 32) = ⟨none, 0, none⟩ := by
  have hlegal : emptyPackage.Legal := ⟨rfl, Nat.zero_le _, rfl⟩
  have hmain := echo_format_exact.1 emptyPackage hlegal
  exact ⟨hlegal, hmain.1 [9, 9], hmain.2 _ (List.take_prefix _ _) (by decide)⟩

/-! ## Any peer -/

/-- The session of an echo server or client, with any limit and while it is open. -/
def sessionEnv (maxMsgLen : Nat → Int) (taskOpen : Nat → Bool) : Tcp.Env EchoPackage :=
  ⟨fun _ data => read data, maxMsgLen, taskOpen⟩

/-- No package has length zero: where the length byte is missing, `H.Len` is zero, and the
size check has refused it. -/
private theorem read_advances (maxMsgLen : Nat → Int) (taskOpen : Nat → Bool) :
    (sessionEnv maxMsgLen taskOpen).Advances := by
  intro k data hpkg herr
  obtain ⟨p, hp⟩ := Option.isSome_iff_exists.mp hpkg
  have hread : read data = ⟨some p, (read data).pkgLen, none⟩ := by
    rw [← hp, ← herr]
    rfl
  have hacc := (read_accepts_iff data p _).mp hread
  have hlen := hacc.length
  have hpos := hacc.pos
  show 0 < (read data).pkgLen
  omega

/-- **Any peer.**  Whatever bytes a peer sends, in whatever pieces, and whenever the session
is closed: the receive loop of an echo session neither hangs nor panics, and the bytes of
the rounds it has used are packages that `Read` has returned, one after the other, and an
undecoded rest.  Every package that was decoded has the magic number and an `H.Len` from 1
to 256, and took up this many bytes and 32 for its header. -/
theorem echo_loop_any_peer (maxMsgLen : Nat → Int) (taskOpen : Nat → Bool)
    (rounds : List Tcp.Round) (fuel : Nat) (hfuel : (Tcp.received rounds).length ≤ fuel) :
    ∃ k last pieces, k ≤ rounds.length ∧
      Tcp.Ends (sessionEnv maxMsgLen taskOpen) fuel rounds .init k last
        (Tcp.handleTCPPackage (sessionEnv maxMsgLen taskOpen) fuel none rounds) ∧
      Tcp.received (rounds.take k) = Tcp.cutOff pieces ++ last.pktBuf ∧
      last.messages = Tcp.dispatched (sessionEnv maxMsgLen taskOpen) pieces ∧
      last.reads ≤ pieces.length + k ∧
      (∀ x ∈ pieces, x.Decoded (sessionEnv maxMsgLen taskOpen) ∧
        x.pkg.h.magic = echoPkgMagic ∧ 1 ≤ x.pkg.h.len ∧ x.pkg.h.len ≤ 256 ∧
        x.bytes.length = 32 + x.pkg.h.len.toNat) := by
  obtain ⟨k, last, pieces, hends, hlast⟩ := Tcp.handleTCPPackage_conserves
    (read_advances maxMsgLen taskOpen) fuel rounds hfuel
  refine ⟨k, last, pieces, hends.le, hends, hlast.bytes, hlast.messages, hlast.reads,
    fun x hx => ?_⟩
  have hdecoded := hlast.decoded x hx
  have hacc := (read_accepts_iff x.data x.pkg x.pkgLen).mp hdecoded.answer
  have hpos := hacc.pos
  have hmax := hacc.max
  have hwhole := hacc.whole
  have hlen := hacc.length
  simp only [echoPkgHeaderLen] at hwhole hlen
  refine ⟨hdecoded, hacc.magic, ?_, ?_, ?_⟩
  · exact UInt16.le_iff_toNat_le.mpr hpos
  · exact UInt16.le_iff_toNat_le.mpr hmax
  · rw [Tcp.Piece.bytes, List.length_take]
    omega

/-- A package whose length byte asks for more than `H.Len` allows, and then bytes that are no
package: the loop closes the session with an error. -/
def hostileRounds : List Tcp.Round :=
  [⟨false, binaryWrite ⟨echoPkgMagic, 1, 2, 3, 0, -1, 2⟩ ++ [200, 65], none⟩,
    ⟨false, List.replicate 40 66, none⟩]

theorem echo_loop_any_peer_hostile :
    Tcp.handleTCPPackage (sessionEnv (fun _ => 0) fun _ => true) 74 none hostileRounds =
      .returned (some (.reader Err.illegalMagic.text))
        [⟨⟨echoPkgMagic, 1, 2, 3, 0, -1, 2⟩, [65]⟩] ∧
    ∃ k last pieces, k ≤ 2 ∧
      Tcp.Ends (sessionEnv (fun _ => 0) fun _ => true) 74 hostileRounds .init k last
        (Tcp.handleTCPPackage (sessionEnv (fun _ => 0) fun _ => true) 74 none hostileRounds) ∧
      Tcp.received (hostileRounds.take k) = Tcp.cutOff pieces ++ last.pktBuf ∧
      last.messages = Tcp.dispatched (sessionEnv (fun _ => 0) fun _ => true) pieces ∧
      last.reads ≤ pieces.length + k ∧
      (∀ x ∈ pieces, x.Decoded (sessionEnv (fun _ => 0) fun _ => true) ∧
        x.pkg.h.magic = echoPkgMagic ∧ 1 ≤ x.pkg.h.len ∧ x.pkg.h.len ≤ 256 ∧
        x.bytes.length = 32 + x.pkg.h.len.toNat) :=
  ⟨rfl, echo_loop_any_peer (fun _ => 0) (fun _ => true) hostileRounds 74 (by decide)⟩

end Getty.Echo
