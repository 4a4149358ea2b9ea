import SysSnippets.Multicast.Server

/-!
# Packets in hexadecimal

`raw_sock_recv` prints each packet with `hexdump`, whose length is the one that `recvfrom` stored for the address.

* `hexdump` : the text of some bytes (`readHex_hexdump`);
* `rawSockRecv` : the receive loop;
* `dumps_iff` : which packets the two dumps of the repository print as they were received.
-/

namespace SysSnippets.Netdevice
open SysSnippets.Lib SysSnippets.Multicast

/-- What is printed behind the byte `i`. -/
def hexdump.gap (i : Nat) : Byte := if i = 0 ∨ i % 32 ≠ 0 then ch ' ' else ch '\n'

/-- `hexdump`; the bytes behind those of `data` are not there. -/
def hexdump (data : List Byte) (len : Int) : Option (List Byte) :=
  if len ≤ data.length then
    some ((data.take len.toNat).zipIdx.flatMap (fun x => hex02 x.1.toNat ++ [hexdump.gap x.2]) ++ [ch '\n'])
  else none

def BUFSIZE : Nat := 2048

/-- What `recvfrom` takes and stores. -/
structure Received where
  packet : List Byte
  /-- the interface `sll_ifindex`, as `get_ifname_by_ifindex` answers -/
  ifname : Option (List Byte)
  /-- `sll_addr` -/
  addr : Fin 6 → Byte
  len : U32

/-- `buf`, zeroed and filled. -/
def Received.buf (r : Received) : List Byte :=
  r.packet.take BUFSIZE ++ List.replicate (BUFSIZE - r.packet.length) 0

/-- The line above the dump. -/
def Received.line (r : Received) : List Byte :=
  "recv ".toList.map ch ++ decimal (r.packet.take BUFSIZE).length ++ " bytes from ".toList.map ch ++
    r.ifname.getD ("(null)".toList.map ch) ++ " (".toList.map ch ++
    [ch ':'].intercalate (List.ofFn fun i => hex02 (r.addr i).toNat) ++ "):\n".toList.map ch

inductive Receiver
  | receiving
  | out
  /-- behind a read outside of `buf` -/
  | undefined
  deriving DecidableEq

/-- The loop of `raw_sock_recv`. An input is a call of `recvfrom`, `none` is -1. -/
def rawSockRecv : Machine Receiver (Option Received) (List Byte) where
  step s i :=
    match s, i with
    | .receiving, none => (.out, [])
    | .receiving, some r =>
        match hexdump r.buf r.len.toInt with
        | some text => (.receiving, [r.line, text])
        | none => (.undefined, [r.line])
    | s, _ => (s, [])

/-! ## Reading a dump back -/

theorem readHex_hexdump {data text : List Byte} {len : Int} (h : hexdump data len = some text) :
    readHex text = some (data.take len.toNat) := by
  unfold hexdump at h
  split_ifs at h
  cases h
  rw [readHex_blocks 0 (fun x => isWord_hex02 x.1.toNat) (fun x => ?_) (by simp; decide)]
  · intro x _
    exact readByte_hex02 x.1
  · refine ⟨List.cons_ne_nil _ _, ?_⟩
    rw [List.forall_mem_singleton]
    unfold hexdump.gap
    split_ifs
    · decide
    · decide

theorem buf_eq {r : Received} (h : r.packet.length ≤ BUFSIZE) :
    r.buf = r.packet ++ List.replicate (BUFSIZE - r.packet.length) 0 := by
  unfold Received.buf
  rw [List.take_of_length_le h]

theorem length_buf {r : Received} (h : r.packet.length ≤ BUFSIZE) : r.buf.length = BUFSIZE := by
  rw [buf_eq h, List.length_append, List.length_replicate]
  omega

/-- A turn prints the packet exactly if the address is as long. -/
theorem readHex_recv {r : Received} (h : r.packet.length ≤ BUFSIZE) :
    (∃ text, (rawSockRecv.step .receiving (some r)).2 = [r.line, text] ∧ readHex text = some r.packet) ↔
      r.len.toInt.toNat = r.packet.length := by
  have hbuf := length_buf h
  cases hdump : hexdump r.buf r.len.toInt with
  | none =>
      have hstep : rawSockRecv.step .receiving (some r) = (.undefined, [r.line]) := by
        simp only [rawSockRecv, hdump]
      have hlen : (BUFSIZE : Int) < r.len.toInt := by
        unfold hexdump at hdump
        split_ifs at hdump with hle
        omega
      rw [hstep]
      refine ⟨fun ⟨text, heq, _⟩ => ?_, fun heq => ?_⟩
      · exact absurd (congrArg List.length heq) (by simp)
      · omega
  | some text =>
      have hstep : rawSockRecv.step .receiving (some r) = (.receiving, [r.line, text]) := by
        simp only [rawSockRecv, hdump]
      have hlen : r.len.toInt ≤ (BUFSIZE : Int) := by
        unfold hexdump at hdump
        split_ifs at hdump with hle
        omega
      rw [hstep]
      refine ⟨fun ⟨t, heq, hread⟩ => ?_, fun heq => ⟨text, rfl, ?_⟩⟩
      · obtain rfl : text = t := by simpa using heq
        rw [readHex_hexdump hdump, Option.some.injEq] at hread
        rw [← hread, List.length_take, hbuf]
        omega
      · rw [readHex_hexdump hdump, heq, buf_eq h, List.take_left]

/-- `dump_packet` prints bytes of ASCII as they are, and the server does if its buffer is not full; `raw_sock_recv`
prints a packet if the address of its sender is as long as the packet. -/
theorem dumps_iff (b : List Byte) (r : Received) :
    (readHex (dumpPacket b) = some b ↔ ∀ c ∈ b, c < 0x80) ∧
      (∀ s : Server, s.phase = .serving → b.length ≤ BUFFER →
        (readHex (printed ((mcastServer true).step s (.readable (some b))).2) = some b ↔
          (∀ c ∈ b, c < 0x80) ∧ b.length < BUFFER)) ∧
      (r.packet.length ≤ BUFSIZE →
        ((∃ text, (rawSockRecv.step .receiving (some r)).2 = [r.line, text] ∧ readHex text = some r.packet) ↔
          r.len.toInt.toNat = r.packet.length)) :=
  ⟨readHex_dumpPacket b, fun _ hs hb => readHex_step hs hb, fun hr => readHex_recv hr⟩

/-- A packet of `n` bytes from loopback. -/
def echoed (n : Nat) : Received := ⟨List.replicate n 0, some ([ch 'l', ch 'o']), fun _ => 0, 20⟩

/-- A server that serves prints a byte of ASCII, and a packet as long as the address of its sender is printed. -/
theorem dumps_twenty :
    readHex (printed ((mcastServer true).step serving (.readable (some [0x41]))).2) = some [0x41] ∧
      ∃ text, (rawSockRecv.step .receiving (some (echoed 20))).2 = [(echoed 20).line, text] ∧
        readHex text = some (echoed 20).packet :=
  have hdumps := dumps_iff [0x41] (echoed 20)
  have hascii : ∀ c ∈ ([0x41] : List Byte), c < 0x80 := List.forall_mem_singleton.2 (by decide)
  ⟨(hdumps.2.1 serving rfl (by decide)).2 ⟨hascii, by decide⟩, (hdumps.2.2 (by decide)).2 (by decide)⟩

/-- A byte of 0x80 is printed as `0xffffff80`, and of a packet of 60 bytes 20 are printed. -/
theorem not_dumped :
    readHex (dumpPacket [0x80]) ≠ some [0x80] ∧
      ¬∃ text, (rawSockRecv.step .receiving (some (echoed 60))).2 = [(echoed 60).line, text] ∧
        readHex text = some (echoed 60).packet := by
  refine ⟨fun h => ?_, fun h => ?_⟩
  · have hlt := (readHex_dumpPacket [0x80]).1 h 0x80 (List.mem_singleton_self _)
    exact absurd hlt (by decide)
  · have hlen := (readHex_recv (r := echoed 60) (by decide)).1 h
    exact absurd hlen (by decide)

end SysSnippets.Netdevice
