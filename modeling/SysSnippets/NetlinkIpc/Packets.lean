import SysSnippets.Lib.Words
import SysSnippets.Rtnetlink.EthMonitor

/-!
# The packets of `netlink_ipc`

* `nlmsg` : a packet, as client and server build it;
* `recvfrom` : one that comes into the buffer of the other side;
* `recvfrom_nlmsg` : what is read there afterwards; `packetOf_build` : what is sent from there.
-/

namespace SysSnippets.NetlinkIpc
open SysSnippets.Lib SysSnippets.Rtnetlink

/-- `sizeof(data)` -/
def DATA_SIZE : Nat := 100

/-- `NLMSG_SPACE` -/
def nlmsgSpace (len : Nat) : Nat := nlmsgAlign (NLMSG_HDRLEN + len)

/-- A packet: `nlmsg_len`, `nlmsg_type`, `nlmsg_flags`, `nlmsg_seq`, `nlmsg_pid` and the data. -/
def nlmsg (pid : U32) (data : List Byte) : List Byte :=
  wordBytes (BitVec.ofNat 32 (nlmsgSpace DATA_SIZE)) ++ leBytes 2 0 ++ leBytes 2 0 ++ wordBytes 0 ++ wordBytes pid ++ data

/-- The block that `calloc` gives. -/
abbrev Block := Nat → Byte

namespace Block

def len (nlh : Block) : Nat := leAt nlh 0 4

def pid (nlh : Block) : U32 := wordAt nlh 12

/-- `NLMSG_PAYLOAD(nlh, 0)` -/
def payload (nlh : Block) : Int := nlh.len - nlmsgSpace 0

/-- What `%s` prints of `NLMSG_DATA`. -/
def text (nlh : Block) : List Byte := cstr ((List.range DATA_SIZE).map fun i => nlh (NLMSG_HDRLEN + i))

end Block

/-- `memset`, `memcpy` and the fields of the header. -/
def build (pid : U32) (data : List Byte) : Block := write (fun _ => 0) (bytesAt 0 (nlmsg pid data))

/-- Before the first packet only the length is set. -/
def emptyBlock : Block := write (fun _ => 0) (bytesAt 0 (wordBytes (BitVec.ofNat 32 (nlmsgSpace DATA_SIZE))))

/-- `recvfrom(sock_fd, nlh, nlh->nlmsg_len)`: a longer packet is cut. -/
def recvfrom (nlh : Block) (packet : List Byte) : Block := write nlh (bytesAt 0 (packet.take nlh.len))

/-- What `sendto(sock_fd, nlh, nlh->nlmsg_len)` sends. -/
def packetOf (nlh : Block) : List Byte := (List.range nlh.len).map nlh

/-! ## What is read -/

variable {nlh : Block} {p : U32} {data : List Byte}

theorem length_nlmsg (hdata : data.length = DATA_SIZE) : (nlmsg p data).length = nlmsgSpace DATA_SIZE := by
  unfold nlmsg
  simp only [List.length_append, length_wordBytes, length_leBytes, hdata]
  rfl

/-- A block that a packet is at the start of. -/
theorem holds_nlmsg (h : Holds nlh 0 (nlmsg p data)) :
    nlh.len = nlmsgSpace DATA_SIZE ∧ nlh.pid = p ∧ Holds nlh NLMSG_HDRLEN data := by
  unfold nlmsg at h
  simp only [holds_append, List.length_append, length_wordBytes, length_leBytes] at h
  obtain ⟨⟨⟨⟨⟨hlen, -⟩, -⟩, -⟩, hpid⟩, hdata⟩ := h
  refine ⟨?_, wordAt_wordBytes hpid, hdata⟩
  unfold Block.len
  rw [leAt_wordBytes hlen]
  rfl

theorem text_of_holds (hdata : data.length = DATA_SIZE) (h : Holds nlh NLMSG_HDRLEN data) : nlh.text = cstr data := by
  unfold Block.text
  apply congrArg cstr
  apply List.ext_getElem
  · rw [List.length_map, List.length_range, hdata]
  · intro i hi hi'
    rw [List.getElem_map, List.getElem_range]
    exact h i _ (List.getElem?_eq_getElem hi')

/-- **A packet that comes in is read as it was built.** -/
theorem recvfrom_nlmsg (hlen : nlh.len = nlmsgSpace DATA_SIZE) (hdata : data.length = DATA_SIZE) :
    (recvfrom nlh (nlmsg p data)).len = nlmsgSpace DATA_SIZE ∧ (recvfrom nlh (nlmsg p data)).pid = p ∧
      (recvfrom nlh (nlmsg p data)).text = cstr data := by
  have hholds : Holds (recvfrom nlh (nlmsg p data)) 0 (nlmsg p data) := by
    unfold recvfrom
    rw [hlen, ← length_nlmsg hdata, List.take_length]
    exact holds_write nlh 0 _
  obtain ⟨hlen', hpid, hdata'⟩ := holds_nlmsg hholds
  exact ⟨hlen', hpid, text_of_holds hdata hdata'⟩

theorem packetOf_build (hdata : data.length = DATA_SIZE) : packetOf (build p data) = nlmsg p data := by
  have hholds : Holds (build p data) 0 (nlmsg p data) := holds_write _ 0 _
  unfold packetOf
  rw [(holds_nlmsg hholds).1, ← length_nlmsg hdata]
  apply List.ext_getElem
  · rw [List.length_map, List.length_range]
  · intro i hi hi'
    rw [List.getElem_map, List.getElem_range]
    have hb := hholds i _ (List.getElem?_eq_getElem hi')
    rwa [Nat.zero_add] at hb

theorem len_build : (build p data).len = nlmsgSpace DATA_SIZE :=
  (holds_nlmsg (holds_write _ 0 _)).1

theorem len_emptyBlock : emptyBlock.len = nlmsgSpace DATA_SIZE := by
  have hholds : Holds emptyBlock 0 (wordBytes (BitVec.ofNat 32 (nlmsgSpace DATA_SIZE))) := holds_write _ 0 _
  unfold Block.len
  rw [leAt_wordBytes hholds]
  rfl

end SysSnippets.NetlinkIpc
