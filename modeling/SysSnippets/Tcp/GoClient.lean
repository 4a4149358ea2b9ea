import SysSnippets.Lib.Loop
import SysSnippets.Lib.Reader
import SysSnippets.Lib.Text

/-!
# The echo clients in Go

They read the lines of the server with a reader of each line's own, and those of standard input with one reader.

* `handleNet`, `handleCli` : the readers of `c_chan.go`; `requestLoop` : the loop of `c_simple.go`;
* `handleCli_ends` : the lines of standard input, whatever its reads are;
* `lines_kept_iff` : the reads for which no line of the server is lost.
-/

namespace SysSnippets.Tcp.GoClient
open SysSnippets.Lib

def newline : Byte := ch '\n'

/-- `handleCli`, with the strings it sends to the channel. -/
def handleCli : Loop (Reader Byte) (List Byte) where
  step reader :=
    match reader.readString newline with
    | (.ok str, reader) => ([str], some reader)
    | (.error _, _) => ([], none)

/-- `handleNet`. The reader of an iteration is gone with what it has not returned. -/
def handleNet : Loop (List (List Byte)) (List Byte) where
  step conn :=
    match (Reader.new conn).readString newline with
    | (.ok str, reader) => ([str], some reader.source)
    | (.error _, _) => ([], none)

inductive Event
  | xmit (str : List Byte)
  /-- `conn.Write` took `num` bytes of `str` -/
  | write (str : List Byte) (num : Nat)
  | warn (num len : Nat)
  | recv (str : List Byte)
  deriving DecidableEq

structure Echo where
  reader : Reader Byte
  sent : Nat
  conn : List (List Byte)

/-- The loop of `c_simple.go`. The call `i` of `conn.Write` returns `write i`, `none` is an error. -/
def requestLoop (write : Nat → Option Nat) : Loop Echo Event where
  step s :=
    match s.reader.readString newline with
    | (.error _, _) => ([], none)
    | (.ok str, reader) =>
        match write s.sent with
        | none => ([.xmit str], none)
        | some num =>
            let warn := if num ≠ str.length then [Event.warn num str.length] else []
            match (Reader.new s.conn).readString newline with
            | (.error _, _) => (.xmit str :: .write str num :: warn, none)
            | (.ok reply, conn) =>
                (.xmit str :: .write str num :: warn ++ [.recv reply], some ⟨reader, s.sent + 1, conn.source⟩)

def replies (t : List Event) : List (List Byte) := t.filterMap fun | .recv str => some str | _ => none

/-- The requests that were sent. -/
def sent (t : List Event) : Nat := t.countP fun | .write _ _ => true | _ => false

/-- What a read returns behind the first line that it ends is nothing, or no line ends behind it. -/
def Kept (conn : List (List Byte)) : Prop :=
  ∀ pre a rest post, conn = pre ++ (a ++ newline :: rest) :: post → newline ∉ a →
    rest = [] ∨ newline ∉ rest ++ post.flatten

/-! ## Standard input -/

theorem handleCli_ends (reader : Reader Byte) : handleCli.Ends reader (ended newline reader.stream) := by
  generalize hs : reader.stream = s
  induction s using line_induction newline generalizing reader with
  | unended text h =>
      rw [ended_nil_iff.2 h]
      apply Loop.Ends.left
      unfold handleCli
      dsimp only
      rw [Reader.readString_unended (hs.symm ▸ h)]
  | line text rest h ih =>
      obtain ⟨reader', hread, hrest⟩ := Reader.readString_stream h hs
      rw [ended_text h]
      apply Loop.Ends.next (t := [text ++ [newline]]) _ (ih reader' hrest)
      unfold handleCli
      dsimp only
      rw [hread]

/-! ## A reader for each line -/

section HandleNet
variable {conn pre post : List (List Byte)} {a rest : List Byte} {t : List (List Byte)}

theorem handleNet_unended (h : newline ∉ conn.flatten) : handleNet.Ends conn [] := by
  apply Loop.Ends.left
  unfold handleNet
  dsimp only
  rw [Reader.readString_unended (r := Reader.new conn) h]

theorem handleNet_read (hpre : newline ∉ pre.flatten) (ha : newline ∉ a) (h : handleNet.Ends post t) :
    handleNet.Ends (pre ++ (a ++ newline :: rest) :: post) ((pre.flatten ++ a ++ [newline]) :: t) := by
  apply Loop.Ends.next (t := [pre.flatten ++ a ++ [newline]]) _ h
  unfold handleNet Reader.new
  dsimp only
  rw [Reader.readString_read List.not_mem_nil hpre ha, List.nil_append]

theorem handleNet_ends (conn : List (List Byte)) : ∃ t, handleNet.Ends conn t := by
  induction conn using read_induction newline with
  | unended conn h => exact ⟨[], handleNet_unended h⟩
  | read pre a rest post hpre ha ih =>
      obtain ⟨t, ht⟩ := ih
      exact ⟨_, handleNet_read hpre ha ht⟩

/-- No more than one line for each newline. -/
theorem length_handleNet (h : handleNet.Ends conn t) : t.length ≤ conn.flatten.count newline := by
  induction conn using read_induction newline generalizing t with
  | unended conn hconn =>
      rw [h.unique (handleNet_unended hconn)]
      exact Nat.zero_le _
  | read pre a rest post hpre ha ih =>
      obtain ⟨u, hu⟩ := handleNet_ends post
      have hlen := ih hu
      rw [h.unique (handleNet_read hpre ha hu), List.length_cons, List.flatten_append, List.flatten_cons]
      rw [List.count_append, List.count_append, List.count_append, List.count_cons_self]
      omega

theorem kept_unended (h : newline ∉ conn.flatten) : Kept conn := by
  rintro pre a rest post rfl -
  exact absurd (by simp) h

theorem kept_read (hpre : newline ∉ pre.flatten) (ha : newline ∉ a) :
    Kept (pre ++ (a ++ newline :: rest) :: post) ↔
      (rest = [] ∨ newline ∉ rest ++ post.flatten) ∧ Kept post := by
  constructor
  · intro h
    refine ⟨h pre a rest post rfl ha, fun pre' a' rest' post' heq ha' => ?_⟩
    apply h (pre ++ (a ++ newline :: rest) :: pre') a' rest' post' _ ha'
    rw [heq, List.append_assoc, List.cons_append]
  · rintro ⟨hfirst, hpost⟩ pre' a' rest' post' heq ha'
    rcases List.append_eq_append_iff.1 heq with ⟨as, has, hcons⟩ | ⟨as, has, hcons⟩
    · cases as with
      | nil =>
          obtain ⟨hread, rfl⟩ := List.cons.inj hcons
          obtain ⟨-, rfl⟩ := first_line_inj ha ha' hread
          exact hfirst
      | cons c as =>
          obtain ⟨-, heq⟩ := List.cons.inj hcons
          exact hpost as a' rest' post' heq ha'
    · cases as with
      | nil =>
          obtain ⟨hread, rfl⟩ := List.cons.inj hcons
          obtain ⟨-, rfl⟩ := first_line_inj ha' ha hread
          exact hfirst
      | cons c as =>
          obtain ⟨rfl, -⟩ := List.cons.inj hcons
          exact absurd (by rw [has]; simp) hpre

/-- With text lost in front of a line, the lines that follow are others. -/
theorem lost_rest (hne : rest ≠ []) (h : newline ∈ rest ++ post.flatten) :
    ¬handleNet.Ends post (ended newline (rest ++ post.flatten)) := by
  intro hends
  by_cases hrest : newline ∈ rest
  · have hlen := length_handleNet hends
    rw [length_ended, List.count_append] at hlen
    have hpos := List.count_pos_iff.2 hrest
    omega
  · rcases exists_read newline post with hpost | ⟨pre, a, r, post, hpre, ha, rfl⟩
    · rw [List.mem_append] at h
      exact h.elim hrest hpost
    · obtain ⟨t, ht⟩ := handleNet_ends post
      have heq := hends.unique (handleNet_read hpre ha ht)
      have hstream : rest ++ (pre ++ (a ++ newline :: r) :: post).flatten =
          (rest ++ (pre.flatten ++ a)) ++ newline :: (r ++ post.flatten) := by simp
      have hhead : newline ∉ rest ++ (pre.flatten ++ a) := by
        simp only [List.mem_append, not_or]
        exact ⟨hrest, hpre, ha⟩
      rw [hstream, ended_text hhead] at heq
      have hline := congrArg List.length (List.cons.inj heq).1
      have hpos := List.length_pos_of_ne_nil hne
      simp only [List.length_append] at hline
      omega

/-- The strings are the lines of the stream exactly if nothing is lost in front of a line. -/
theorem handleNet_ends_iff (conn : List (List Byte)) :
    handleNet.Ends conn (ended newline conn.flatten) ↔ Kept conn := by
  induction conn using read_induction newline with
  | unended conn h =>
      rw [ended_nil_iff.2 h]
      exact iff_of_true (handleNet_unended h) (kept_unended h)
  | read pre a rest post hpre ha ih =>
      have hstream : (pre ++ (a ++ newline :: rest) :: post).flatten =
          (pre.flatten ++ a) ++ newline :: (rest ++ post.flatten) := by simp
      have hhead : newline ∉ pre.flatten ++ a := by
        rw [List.mem_append, not_or]
        exact ⟨hpre, ha⟩
      have hfirst : handleNet.Ends (pre ++ (a ++ newline :: rest) :: post)
          ((pre.flatten ++ a ++ [newline]) :: ended newline (rest ++ post.flatten)) ↔
            handleNet.Ends post (ended newline (rest ++ post.flatten)) := by
        refine ⟨fun h => ?_, handleNet_read hpre ha⟩
        obtain ⟨t, ht⟩ := handleNet_ends post
        rw [(List.cons.inj (h.unique (handleNet_read hpre ha ht))).2]
        exact ht
      rw [hstream, ended_text hhead, kept_read hpre ha, hfirst]
      by_cases hrest : rest = []
      · rw [hrest, List.nil_append, ih]
        simp
      · by_cases hlost : newline ∈ rest ++ post.flatten
        · refine iff_of_false (lost_rest hrest hlost) fun h => ?_
          exact h.1.elim hrest (fun hmem => hmem hlost)
        · have hpost : newline ∉ post.flatten := fun h => hlost (List.mem_append_right _ h)
          rw [ended_nil_iff.2 hlost]
          exact iff_of_true (handleNet_unended hpost) ⟨Or.inr hlost, kept_unended hpost⟩

end HandleNet

/-! ## Requests and replies -/

section Requests
variable {write : Nat → Option Nat} {s : Echo} {t : List Event} {str : List Byte} {d conn : List (List Byte)}

theorem requestLoop_eof (h : newline ∉ s.reader.stream) : (requestLoop write).step s = ([], none) := by
  unfold requestLoop
  dsimp only
  rw [Reader.readString_unended h]

/-- What an iteration does with a line of standard input: `first` and then the reply, if there is one. -/
theorem requestLoop_line (write : Nat → Option Nat) {reader : Reader Byte} (h : s.reader.readString newline = (.ok str, reader)) :
    (write s.sent = none ∧ (requestLoop write).step s = ([.xmit str], none)) ∨
    ∃ first, write s.sent ≠ none ∧ replies first = [] ∧ sent first = 1 ∧
      ((handleNet.step s.conn = ([], none) ∧ (requestLoop write).step s = (first, none)) ∨
        ∃ reply conn, handleNet.step s.conn = ([reply], some conn) ∧
          (requestLoop write).step s = (first ++ [.recv reply], some ⟨reader, s.sent + 1, conn⟩)) := by
  unfold requestLoop handleNet
  dsimp only
  rw [h]
  dsimp only
  cases hwrite : write s.sent with
  | none => exact Or.inl ⟨rfl, rfl⟩
  | some num =>
      refine Or.inr ⟨.xmit str :: .write str num :: if num ≠ str.length then [.warn num str.length] else [], ?_, ?_, ?_, ?_⟩
      · exact Option.some_ne_none num
      · split_ifs <;> rfl
      · split_ifs <;> rfl
      · rcases (Reader.new s.conn).readString newline with ⟨_ | reply, conn⟩
        · exact Or.inl ⟨rfl, rfl⟩
        · exact Or.inr ⟨reply, conn.source, rfl, rfl⟩

theorem replies_append (t u : List Event) : replies (t ++ u) = replies t ++ replies u := List.filterMap_append

theorem sent_append (t u : List Event) : sent (t ++ u) = sent t + sent u := List.countP_append

theorem requestLoop_ends (write : Nat → Option Nat) (s : Echo) : ∃ t, (requestLoop write).Ends s t := by
  apply Loop.ends_of_decreasing (μ := fun s => s.reader.stream.length)
  intro s t s' hstep
  rcases hread : s.reader.readString newline with ⟨_ | str, reader⟩
  · have hend : newline ∉ s.reader.stream := by
      intro hmem
      obtain ⟨text, rest, hstream, htext⟩ := List.eq_append_cons_of_mem hmem
      obtain ⟨r, hok, -⟩ := Reader.readString_stream htext hstream
      rw [hread] at hok
      exact nomatch congrArg Prod.fst hok
    rw [requestLoop_eof hend] at hstep
    exact nomatch congrArg Prod.snd hstep
  · obtain ⟨text, -, -, hstream⟩ := Reader.readString_ok hread
    have hshort : reader.stream.length < s.reader.stream.length := by
      rw [hstream, List.length_append, List.length_cons]
      omega
    obtain ⟨-, hleft⟩ | ⟨first, -, -, -, ⟨-, hleft⟩ | ⟨reply, conn, -, hnext⟩⟩ := requestLoop_line write hread
    · rw [hleft] at hstep
      exact nomatch congrArg Prod.snd hstep
    · rw [hleft] at hstep
      exact nomatch congrArg Prod.snd hstep
    · rw [hnext, Prod.mk.injEq] at hstep
      obtain rfl := Option.some.inj hstep.2
      exact hshort

/-- The replies are the first strings that `handleNet` would deliver, one for each request; a request without a reply is
the last one. -/
theorem replies_take (h : (requestLoop write).Ends s t) (hnet : handleNet.Ends s.conn d) :
    replies t = d.take (sent t) ∧
      ((∀ i, write i ≠ none) → sent t = min (ended newline s.reader.stream).length (d.length + 1)) := by
  generalize hs : s.reader.stream = stdin
  induction stdin using line_induction newline generalizing s t d with
  | unended text htext =>
      rw [h.of_left (requestLoop_eof (hs.symm ▸ htext)), ended_nil_iff.2 htext]
      exact ⟨rfl, fun _ => (Nat.zero_min _).symm⟩
  | line text rest htext ih =>
      obtain ⟨reader, hread, hrest⟩ := Reader.readString_stream htext hs
      obtain ⟨hwrite, hleft⟩ | ⟨first, hwrite, hreplies, hsent, ⟨hnone, hleft⟩ | ⟨reply, conn, hsome, hnext⟩⟩ :=
        requestLoop_line write hread
      · rw [h.of_left hleft]
        exact ⟨rfl, fun hall => absurd hwrite (hall s.sent)⟩
      · rw [h.of_left hleft, hnet.of_left hnone, hreplies, hsent, ended_text htext]
        refine ⟨rfl, fun _ => ?_⟩
        rw [List.length_cons, List.length_nil]
        omega
      · obtain ⟨u, rfl, hu⟩ := h.of_next hnext
        obtain ⟨d, rfl, hd⟩ := hnet.of_next hsome
        obtain ⟨htake, hcount⟩ := ih hu hd hrest
        rw [replies_append, replies_append, hreplies, htake, sent_append, sent_append, hsent, ended_text htext]
        have hrecv : sent [.recv reply] = 0 := rfl
        rw [hrecv, Nat.add_zero, Nat.add_comm 1]
        refine ⟨rfl, fun hall => ?_⟩
        rw [hcount hall, List.length_cons, List.singleton_append, List.length_cons]
        omega

/-- The replies are the first lines of the server, one for each request, whatever is typed. -/
theorem replies_iff (conn : List (List Byte)) :
    (∀ write reader, ∃ t, (requestLoop write).Ends ⟨reader, 0, conn⟩ t ∧
      replies t = (ended newline conn.flatten).take (sent t)) ↔ Kept conn := by
  obtain ⟨d, hd⟩ := handleNet_ends conn
  refine ⟨fun h => ?_, fun h write reader => ?_⟩
  · -- one request more than there are lines to deliver
    obtain ⟨t, ht, hlines⟩ := h (fun _ => some 1) (Reader.new [List.replicate (d.length + 1) newline])
    obtain ⟨htake, hsent⟩ := replies_take ht hd
    have hcount : sent t = d.length + 1 := by
      rw [hsent fun _ => Option.some_ne_none 1, length_ended]
      show min ((([] : List Byte) ++ [List.replicate (d.length + 1) newline].flatten).count newline) _ = _
      rw [List.nil_append, List.flatten_singleton, List.count_replicate_self, Nat.min_self]
    rw [hcount] at htake hlines
    rw [List.take_of_length_le (Nat.le_succ _)] at htake
    have hd' : d = (ended newline conn.flatten).take (d.length + 1) := htake.symm.trans hlines
    have hlen := congrArg List.length hd'
    rw [List.length_take] at hlen
    rw [List.take_of_length_le (by omega)] at hd'
    rw [← handleNet_ends_iff, ← hd']
    exact hd
  · obtain ⟨t, ht⟩ := requestLoop_ends write ⟨reader, 0, conn⟩
    refine ⟨t, ht, ?_⟩
    rw [(replies_take ht hd).1, hd.unique ((handleNet_ends_iff conn).2 h)]

end Requests

/-- `handleNet` delivers the lines of the server, and the loop of `c_simple.go` takes them for its replies, exactly for
reads that end no line behind text which follows the first line they end. -/
theorem lines_kept_iff (conn : List (List Byte)) :
    (handleNet.Ends conn (ended newline conn.flatten) ↔ Kept conn) ∧
      ((∀ write reader, ∃ t, (requestLoop write).Ends ⟨reader, 0, conn⟩ t ∧
        replies t = (ended newline conn.flatten).take (sent t)) ↔ Kept conn) :=
  ⟨handleNet_ends_iff conn, replies_iff conn⟩

/-- Two lines in two reads, and in one: then the second is lost, also for `c_simple.go`. -/
theorem line_lost :
    handleNet.Ends [[ch 'a', newline], [ch 'b', newline]] (ended newline [ch 'a', newline, ch 'b', newline]) ∧
      ¬handleNet.Ends [[ch 'a', newline, ch 'b', newline]] (ended newline [ch 'a', newline, ch 'b', newline]) ∧
      (requestLoop fun _ => some 2).Ends
        ⟨Reader.new [[ch 'x', newline], [ch 'y', newline]], 0, [[ch 'a', newline, ch 'b', newline]]⟩
        [.xmit [ch 'x', newline], .write [ch 'x', newline] 2, .recv [ch 'a', newline],
          .xmit [ch 'y', newline], .write [ch 'y', newline] 2] := by
  have hone : handleNet.Ends [[ch 'a', newline, ch 'b', newline]] [[ch 'a', newline]] := ⟨2, rfl⟩
  have hne : [[ch 'a', newline]] ≠ ended newline [ch 'a', newline, ch 'b', newline] := by decide
  exact ⟨⟨3, rfl⟩, fun h => hne (hone.unique h), ⟨2, rfl⟩⟩

end SysSnippets.Tcp.GoClient
