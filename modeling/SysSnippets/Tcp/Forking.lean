import SysSnippets.Lib.Children
import SysSnippets.Lib.Machine
import SysSnippets.Tcp.EventLoop

/-!
# Servers that fork

`s_fork`, `s_time_fork` and `inetd` fork a child for each connection; `s_fork` waits for its children in the handler of
SIGCHLD, which may interrupt it anywhere.

* `Server`, `step` : the server, its handler and what the kernel keeps of the children;
* `Style` : what sets the three servers apart (`sFork`, `sTimeFork`, `inetd`);
* `Inv` : what has been accounted for;
* `children_reported` : `s_fork` reports each child once, and leaves no zombie;
* `server_exits` : what makes `s_fork` exit;
* `serves_at_most` : a server that waits for nobody forks no more children than the process table has room for.
-/

namespace SysSnippets.Tcp.Forking
open SysSnippets.Lib

abbrev Pid : Type := Nat

/-- What `waitpid` stores. -/
abbrev Status : Type := Nat

inductive Errno
  | EINTR
  | ECHILD
  | other (n : Nat)
  deriving DecidableEq

/-- Where `main` is. -/
inductive Pc
  | accept
  /-- in `accept` -/
  | blocked
  /-- `accept` has returned -1 -/
  | failed
  | fork (sockfd : Option Fd)
  | close (sockfd : Option Fd)
  | exited
  deriving DecidableEq

/-- What sets the servers apart. -/
structure Style where
  /-- `chld_handler` is installed -/
  handles : Bool
  /-- what is done when `accept` has returned -1 -/
  failed : Errno → Pc
  failed_cases : ∀ e, failed e = .accept ∨ failed e = .exited ∨ failed e = .fork none

/-- `s_fork`: an interrupted `accept` is called again. -/
def sFork : Style where
  handles := true
  failed e := if e = .EINTR then .accept else .exited
  failed_cases e := by
    split_ifs
    · exact Or.inl rfl
    · exact Or.inr (Or.inl rfl)

/-- `s_time_fork` -/
def sTimeFork : Style where
  handles := false
  failed _ := .exited
  failed_cases _ := Or.inr (Or.inl rfl)

/-- `inetd` does not look at what `accept` returns. -/
def inetd : Style where
  handles := false
  failed _ := .fork none
  failed_cases _ := Or.inr (Or.inr rfl)

structure Server where
  pc : Pc
  errno : Errno
  /-- in `chld_handler` -/
  reaping : Bool
  children : Children Pid Status
  fds : List Fd

/-- What happens next. -/
inductive Input
  /-- `main` goes on by itself -/
  | go
  /-- `accept` returns -/
  | accept (r : Except Nat Fd)
  /-- `fork` is called, and fails or would give this id -/
  | fork (r : Option Pid)
  | ends (pid : Pid) (status : Status)
  /-- SIGCHLD is delivered -/
  | signal
  /-- `waitpid` in the handler, where this child is the next one -/
  | waitpid (pid : Pid) (status : Status)

inductive Out
  | connected (sockfd : Fd)
  | acceptFailed (errno : Nat)
  | forked (pid : Pid) (sockfd : Option Fd)
  | forkFailed
  /-- a child ends -/
  | ended (pid : Pid) (status : Status)
  /-- ">>> child terminated", and its status -/
  | terminated (pid : Pid) (status : Status)
  /-- `waitpid` has no child to wait for -/
  | noChild (pc : Pc)
  | exit
  deriving DecidableEq

namespace Server

def init (listenfd : Fd) : Server where
  pc := .accept
  errno := .other 0
  reaping := false
  children := .init
  fds := [listenfd]

/-- Going on at `pc`. -/
def goto (s : Server) (pc : Pc) : Server × List Out := ({ s with pc := pc }, if pc = .exited then [.exit] else [])

/-- The handler returns. `waitpid` has failed if there is no child at all; `accept` fails when it was interrupted. -/
def handlerReturn (s : Server) : Server × List Out :=
  let failed := s.children.running = []
  ({ s with
      reaping := false
      pc := if s.pc = .blocked then .failed else s.pc
      errno := if s.pc = .blocked then .EINTR else if failed then .ECHILD else s.errno },
    if failed then [.noChild s.pc] else [])

variable (st : Style) (limit : Nat)

/-- `main`, where the process table has `limit` entries for it. -/
def mainStep (s : Server) : Input → Server × List Out
  | .go =>
      match s.pc with
      | .accept => s.goto .blocked
      | .failed => s.goto (st.failed s.errno)
      | .close sockfd => { s with fds := s.fds.filter fun fd => some fd ≠ sockfd }.goto .accept
      | _ => (s, [])
  | .accept r =>
      if s.pc = .blocked then
        match r with
        | .ok sockfd =>
            if sockfd ∈ s.fds then (s, [])
            else ({ s with pc := .fork (some sockfd), fds := s.fds ++ [sockfd] }, [.connected sockfd])
        | .error n => ({ s with pc := .failed, errno := .other n }, [.acceptFailed n])
      else (s, [])
  | .fork r =>
      match s.pc, r with
      | .fork sockfd, some pid =>
          if limit ≤ s.children.size then ({ s with pc := .exited }, [.forkFailed, .exit])
          else if s.children.inUse pid then (s, [])
          else ({ s with pc := .close sockfd, children := s.children.fork pid }, [.forked pid sockfd])
      | .fork _, none => ({ s with pc := .exited }, [.forkFailed, .exit])
      | _, _ => (s, [])
  | _ => (s, [])

/-- `chld_handler` -/
def handlerStep (s : Server) : Input → Server × List Out
  | .waitpid pid status =>
      if (pid, status) ∈ s.children.zombies then
        ({ s with children := s.children.reap (pid, status) }, [.terminated pid status])
      else if s.children.zombies = [] then s.handlerReturn
      else (s, [])
  | _ => (s, [])

def step (s : Server) : Input → Server × List Out
  | .ends pid status =>
      if pid ∈ s.children.running then
        ({ s with children := s.children.ends st.handles pid status }, [.ended pid status])
      else (s, [])
  | .signal =>
      if s.children.pending ∧ ¬s.reaping ∧ s.pc ≠ .exited then
        ({ s with reaping := true, children := s.children.deliver }, [])
      else (s, [])
  | i => if s.reaping then s.handlerStep i else s.mainStep st limit i

end Server

/-- A server with everything around it. -/
def server (st : Style) (limit : Nat) : Machine Server Input Out := ⟨Server.step st limit⟩

/-! ## What a step does -/

namespace Server
variable {st : Style} {limit : Nat} {s s' : Server} {h out : List Out} {listenfd : Fd}

/-- What can happen to a server. -/
inductive Move (st : Style) (limit : Nat) (s : Server) : Server → List Out → Prop
  | idle : Move st limit s s []
  | ends (pid : Pid) (status : Status) (hpid : pid ∈ s.children.running) :
      Move st limit s { s with children := s.children.ends st.handles pid status } [.ended pid status]
  | signal (hpending : s.children.pending = true) (hpc : s.pc ≠ .exited) :
      Move st limit s { s with reaping := true, children := s.children.deliver } []
  | reap (pid : Pid) (status : Status) (hreaping : s.reaping = true) (hz : (pid, status) ∈ s.children.zombies) :
      Move st limit s { s with children := s.children.reap (pid, status) } [.terminated pid status]
  | handlerReturn (hreaping : s.reaping = true) (hz : s.children.zombies = []) :
      Move st limit s s.handlerReturn.1 s.handlerReturn.2
  | call (hpc : s.pc = .accept) : Move st limit s { s with pc := .blocked } []
  | test (hpc : s.pc = .failed) : Move st limit s (s.goto (st.failed s.errno)).1 (s.goto (st.failed s.errno)).2
  | close (sockfd : Option Fd) (hpc : s.pc = .close sockfd) :
      Move st limit s { s with fds := s.fds.filter fun fd => some fd ≠ sockfd, pc := .accept } []
  | connected (sockfd : Fd) (hpc : s.pc = .blocked) (hnew : sockfd ∉ s.fds) :
      Move st limit s { s with pc := .fork (some sockfd), fds := s.fds ++ [sockfd] } [.connected sockfd]
  | acceptFailed (n : Nat) (hpc : s.pc = .blocked) :
      Move st limit s { s with pc := .failed, errno := .other n } [.acceptFailed n]
  | forked (pid : Pid) (sockfd : Option Fd) (hpc : s.pc = .fork sockfd) (hlimit : s.children.size < limit) :
      Move st limit s { s with pc := .close sockfd, children := s.children.fork pid } [.forked pid sockfd]
  | forkFailed (sockfd : Option Fd) (hpc : s.pc = .fork sockfd) :
      Move st limit s { s with pc := .exited } [.forkFailed, .exit]

theorem mainStep_move (st : Style) (limit : Nat) (s : Server) (i : Input) :
    Move st limit s (s.mainStep st limit i).1 (s.mainStep st limit i).2 := by
  unfold mainStep
  split
  · split
    · next hpc => exact .call hpc
    · next hpc => exact .test hpc
    · next sockfd hpc => exact .close sockfd hpc
    · exact .idle
  · split_ifs with hpc
    · split
      · split_ifs with hold
        · exact .idle
        · exact .connected _ hpc hold
      · exact .acceptFailed _ hpc
    · exact .idle
  · split
    · next sockfd pid hpc =>
        split_ifs with hfull huse
        · exact .forkFailed sockfd hpc
        · exact .idle
        · exact .forked pid sockfd hpc (Nat.lt_of_not_le hfull)
    · next sockfd hpc => exact .forkFailed sockfd hpc
    · exact .idle
  · exact .idle

theorem handlerStep_move (st : Style) (limit : Nat) (hreaping : s.reaping = true) (i : Input) :
    Move st limit s (s.handlerStep i).1 (s.handlerStep i).2 := by
  unfold handlerStep
  split
  · split_ifs with hz hnil
    · exact .reap _ _ hreaping hz
    · exact .handlerReturn hreaping hnil
    · exact .idle
  · exact .idle

theorem step_move (st : Style) (limit : Nat) (s : Server) (i : Input) :
    Move st limit s (s.step st limit i).1 (s.step st limit i).2 := by
  unfold step
  split
  · split_ifs with hpid
    · exact .ends _ _ hpid
    · exact .idle
  · split_ifs with hsignal
    · exact .signal hsignal.1 hsignal.2.2
    · exact .idle
  · split_ifs with hreaping
    · exact handlerStep_move st limit hreaping i
    · exact mainStep_move st limit s i

end Server

/-! ## What has been accounted for -/

def Out.isForked : Out → Bool
  | .forked _ _ => true
  | _ => false

def Out.isTerminated : Out → Bool
  | .terminated _ _ => true
  | _ => false

/-- What concerns the children. -/
def Out.ofChild : Out → Bool
  | .forked _ _ => true
  | .terminated _ _ => true
  | .ended _ _ => true
  | _ => false

theorem countP_of_ofChild {out : List Out} (hout : ∀ o ∈ out, o.ofChild = false) {p : Out → Bool}
    (hp : ∀ o, p o = true → o.ofChild = true) : out.countP p = 0 := by
  rw [List.countP_eq_zero]
  intro o ho hpo
  have hchild := hp o hpo
  rw [hout o ho] at hchild
  cases hchild

/-- What has made `accept` look failed for another reason than the signal. -/
def Spoilt (h : List Out) : Prop := (∃ n, .acceptFailed n ∈ h) ∨ .noChild .failed ∈ h

theorem Spoilt.append {h : List Out} (hs : Spoilt h) (out : List Out) : Spoilt (h ++ out) :=
  hs.imp (fun ⟨n, hn⟩ => ⟨n, List.mem_append_left out hn⟩) (List.mem_append_left out)

/-- The connection that `main` has in hand. -/
def Pc.sockfd : Pc → List Fd
  | .fork sockfd => sockfd.toList
  | .close sockfd => sockfd.toList
  | _ => []

namespace Server
variable {st : Style} {limit : Nat} {s s' : Server} {h out : List Out} {listenfd : Fd}

structure Inv (st : Style) (limit : Nat) (listenfd : Fd) (h : List Out) (s : Server) : Prop where
  reported : ∀ pid status, h.count (.terminated pid status) + s.children.zombies.count (pid, status) =
    h.count (.ended pid status)
  forked : h.countP Out.isForked = s.children.size + h.countP Out.isTerminated
  size_le : s.children.size ≤ limit
  awaited : st.handles = true → s.children.Awaited s.reaping
  unhandled : st.handles = false → s.reaping = false ∧ s.children.pending = false ∧ h.countP Out.isTerminated = 0
  failed : s.pc = .failed → s.errno = .EINTR ∨ Spoilt h
  fds : s.pc ≠ .exited → s.fds = listenfd :: s.pc.sockfd
  distinct : ∀ fd ∈ s.pc.sockfd, fd ≠ listenfd

theorem inv_init (st : Style) (limit : Nat) (listenfd : Fd) : (init listenfd).Inv st limit listenfd [] where
  reported _ _ := rfl
  forked := rfl
  size_le := Nat.zero_le limit
  awaited _ := Children.awaited_init
  unhandled _ := ⟨rfl, rfl, rfl⟩
  failed hpc := nomatch hpc
  fds _ := rfl
  distinct _ hfd := absurd hfd List.not_mem_nil

/-- A step that concerns no child. -/
theorem Inv.kept (hinv : s.Inv st limit listenfd h) (hchildren : s'.children = s.children)
    (hreaping : s'.reaping = s.reaping ∨ s.reaping = true ∧ s.children.zombies = [])
    (hout : ∀ o ∈ out, o.ofChild = false) (hfailed : s'.pc = .failed → s'.errno = .EINTR ∨ Spoilt (h ++ out))
    (hfds : s'.pc ≠ .exited → s'.fds = listenfd :: s'.pc.sockfd) (hdistinct : ∀ fd ∈ s'.pc.sockfd, fd ≠ listenfd) :
    s'.Inv st limit listenfd (h ++ out) := by
  have hforked : out.countP Out.isForked = 0 := countP_of_ofChild hout fun o ho => by cases o <;> first | rfl | cases ho
  have hterminated : out.countP Out.isTerminated = 0 :=
    countP_of_ofChild hout fun o ho => by cases o <;> first | rfl | cases ho
  refine ⟨?_, ?_, ?_, ?_, ?_, hfailed, hfds, hdistinct⟩
  · intro pid status
    have hended : out.count (.ended pid status) = 0 := List.count_eq_zero.2 fun ho => nomatch hout _ ho
    have hreported : out.count (.terminated pid status) = 0 := List.count_eq_zero.2 fun ho => nomatch hout _ ho
    rw [List.count_append, List.count_append, hended, hreported, hchildren]
    exact hinv.reported pid status
  · rw [List.countP_append, List.countP_append, hforked, hterminated, hchildren]
    exact hinv.forked
  · rw [hchildren]
    exact hinv.size_le
  · intro hhandles
    rw [hchildren]
    rcases hreaping with hsame | ⟨-, hz⟩
    · rw [hsame]
      exact hinv.awaited hhandles
    · exact Children.awaited_of_nil hz
  · intro hhandles
    have hunhandled := hinv.unhandled hhandles
    rw [hchildren, List.countP_append, hterminated]
    rcases hreaping with hsame | ⟨htrue, -⟩
    · rw [hsame]
      exact hunhandled
    · rw [htrue] at hunhandled
      cases hunhandled.1

/-- A child ends. -/
theorem Inv.childEnded {pid : Pid} {status : Status} (hinv : s.Inv st limit listenfd h)
    (hpid : pid ∈ s.children.running) :
    Inv st limit listenfd (h ++ [.ended pid status])
      { s with children := s.children.ends st.handles pid status } := by
  refine ⟨?_, ?_, ?_, ?_, ?_, ?_, hinv.fds, hinv.distinct⟩
  · intro pid' status'
    have hreported := hinv.reported pid' status'
    rw [List.count_append, List.count_append, List.count_singleton, List.count_singleton, Children.count_ends]
    simp only [beq_iff_eq, reduceCtorEq, if_false, Out.ended.injEq, Prod.mk.injEq]
    omega
  · rw [List.countP_append, List.countP_append, Children.size_ends hpid]
    exact hinv.forked
  · rw [Children.size_ends hpid]
    exact hinv.size_le
  · intro hhandles
    rw [hhandles]
    exact Children.awaited_ends s.children pid status
  · intro hhandles
    obtain ⟨hreaping, hpending, hcount⟩ := hinv.unhandled hhandles
    refine ⟨hreaping, ?_, ?_⟩
    · change (s.children.pending || st.handles) = false
      rw [hpending, hhandles]
      rfl
    · rw [List.countP_append]
      exact hcount
  · exact fun hpc => (hinv.failed hpc).imp_right fun hs => hs.append _

/-- A child is reported. -/
theorem Inv.childReaped {pid : Pid} {status : Status} (hinv : s.Inv st limit listenfd h)
    (hreaping : s.reaping = true) (hz : (pid, status) ∈ s.children.zombies) :
    Inv st limit listenfd (h ++ [.terminated pid status]) { s with children := s.children.reap (pid, status) } := by
  have hsize := Children.size_reap hz
  refine ⟨?_, ?_, ?_, ?_, ?_, ?_, hinv.fds, hinv.distinct⟩
  · intro pid' status'
    have hreported := hinv.reported pid' status'
    have hcount := Children.count_reap (z := (pid', status')) hz
    rw [List.count_append, List.count_append, List.count_singleton, List.count_singleton]
    simp only [beq_iff_eq, reduceCtorEq, if_false, Out.terminated.injEq, Prod.mk.injEq] at hcount ⊢
    omega
  · have hforked := hinv.forked
    rw [List.countP_append, List.countP_append]
    change _ + 0 = (s.children.reap (pid, status)).size + (_ + 1)
    omega
  · have hle := hinv.size_le
    change (s.children.reap (pid, status)).size ≤ limit
    omega
  · intro _
    change (s.children.reap (pid, status)).Awaited s.reaping
    rw [hreaping]
    exact Children.awaited_of_reaping _
  · intro hhandles
    rw [(hinv.unhandled hhandles).1] at hreaping
    cases hreaping
  · exact fun hpc => (hinv.failed hpc).imp_right fun hs => hs.append _

/-- The handler finds no child left and returns. -/
theorem Inv.handlerReturned (hinv : s.Inv st limit listenfd h) (hreaping : s.reaping = true)
    (hz : s.children.zombies = []) :
    s.handlerReturn.1.Inv st limit listenfd (h ++ s.handlerReturn.2) := by
  have hout : ∀ o ∈ s.handlerReturn.2, o.ofChild = false := by
    unfold handlerReturn
    dsimp only
    split_ifs
    · simp [Out.ofChild]
    · simp
  refine hinv.kept rfl (Or.inr ⟨hreaping, hz⟩) hout ?_ ?_ ?_
  · intro hpc
    change (if s.pc = .blocked then _ else _) = _ at hpc
    change (if s.pc = .blocked then _ else _) = _ ∨ _
    split_ifs at hpc ⊢ with hblocked hnone
    · exact Or.inl rfl
    · refine Or.inr (Or.inr (List.mem_append_right h ?_))
      change _ ∈ if _ then _ else _
      rw [if_pos hnone, hpc]
      exact List.mem_cons_self
    · exact (hinv.failed hpc).imp_right fun hs => hs.append _
  · intro hpc
    change (if s.pc = .blocked then _ else _) ≠ _ at hpc
    change s.fds = listenfd :: (if s.pc = .blocked then _ else _ : Pc).sockfd
    split_ifs at hpc ⊢ with hblocked
    · rw [hinv.fds (by rw [hblocked]; exact Pc.noConfusion), hblocked]
      rfl
    · exact hinv.fds hpc
  · intro fd hfd
    change fd ∈ (if s.pc = .blocked then _ else _ : Pc).sockfd at hfd
    split_ifs at hfd
    · cases hfd
    · exact hinv.distinct fd hfd

/-- A child is made. -/
theorem Inv.childForked {pid : Pid} {sockfd : Option Fd} (hinv : s.Inv st limit listenfd h)
    (hpc : s.pc = .fork sockfd) (hlimit : s.children.size < limit) :
    Inv st limit listenfd (h ++ [.forked pid sockfd])
      { s with pc := .close sockfd, children := s.children.fork pid } := by
  have hdistinct := hinv.distinct
  rw [hpc] at hdistinct
  refine ⟨?_, ?_, ?_, hinv.awaited, ?_, ?_, ?_, hdistinct⟩
  · intro pid' status'
    rw [List.count_append, List.count_append]
    exact hinv.reported pid' status'
  · have hforked := hinv.forked
    rw [List.countP_append, List.countP_append, Children.size_fork]
    change _ + 1 = _ + 1 + (_ + 0)
    omega
  · rw [Children.size_fork]
    exact hlimit
  · intro hhandles
    rw [List.countP_append]
    exact hinv.unhandled hhandles
  · exact fun hfailed => nomatch hfailed
  · intro _
    rw [hinv.fds (by rw [hpc]; exact Pc.noConfusion), hpc]
    rfl

/-- **A move keeps the invariant.** -/
theorem Inv.move (hinv : s.Inv st limit listenfd h) (hm : Move st limit s s' out) :
    s'.Inv st limit listenfd (h ++ out) := by
  cases hm with
  | idle =>
      rw [List.append_nil]
      exact hinv
  | ends pid status hpid => exact hinv.childEnded hpid
  | signal hpending hpc =>
      rw [List.append_nil]
      refine ⟨hinv.reported, hinv.forked, hinv.size_le, fun _ => Children.awaited_of_reaping _, ?_, hinv.failed,
        hinv.fds, hinv.distinct⟩
      intro hhandles
      rw [(hinv.unhandled hhandles).2.1] at hpending
      cases hpending
  | reap pid status hreaping hz => exact hinv.childReaped hreaping hz
  | handlerReturn hreaping hz => exact hinv.handlerReturned hreaping hz
  | call hpc =>
      refine hinv.kept rfl (Or.inl rfl) ?_ ?_ ?_ ?_
      · exact fun o ho => nomatch ho
      · exact fun hfailed => nomatch hfailed
      · intro _
        rw [hinv.fds (by rw [hpc]; exact Pc.noConfusion), hpc]
        rfl
      · exact fun fd hfd => nomatch hfd
  | test hpc =>
      have hout : ∀ o ∈ (s.goto (st.failed s.errno)).2, o.ofChild = false := by
        unfold goto
        split_ifs
        · simp [Out.ofChild]
        · simp
      refine hinv.kept rfl (Or.inl rfl) hout ?_ ?_ ?_
      · intro hfailed
        change st.failed s.errno = .failed at hfailed
        rcases st.failed_cases s.errno with hcase | hcase | hcase <;> rw [hcase] at hfailed <;> cases hfailed
      · intro _
        change s.fds = listenfd :: (st.failed s.errno).sockfd
        rw [hinv.fds (by rw [hpc]; exact Pc.noConfusion), hpc]
        rcases st.failed_cases s.errno with hcase | hcase | hcase <;> rw [hcase] <;> rfl
      · intro fd hfd
        change fd ∈ (st.failed s.errno).sockfd at hfd
        rcases st.failed_cases s.errno with hcase | hcase | hcase <;> rw [hcase] at hfd <;> cases hfd
  | close sockfd hpc =>
      have hdistinct := hinv.distinct
      rw [hpc] at hdistinct
      refine hinv.kept rfl (Or.inl rfl) ?_ ?_ ?_ ?_
      · exact fun o ho => nomatch ho
      · exact fun hfailed => nomatch hfailed
      · intro _
        change s.fds.filter _ = [listenfd]
        rw [hinv.fds (by rw [hpc]; exact Pc.noConfusion), hpc]
        change (listenfd :: sockfd.toList).filter _ = [listenfd]
        cases sockfd with
        | none => rfl
        | some fd =>
            have hne : fd ≠ listenfd := hdistinct fd List.mem_cons_self
            simp [hne.symm]
      · exact fun fd hfd => nomatch hfd
  | connected sockfd hpc hnew =>
      have hfds := hinv.fds (by rw [hpc]; exact Pc.noConfusion)
      rw [hfds] at hnew
      refine hinv.kept rfl (Or.inl rfl) ?_ ?_ ?_ ?_
      · simp [Out.ofChild]
      · exact fun hfailed => nomatch hfailed
      · intro _
        rw [hfds, hpc]
        rfl
      · intro fd hfd
        rw [List.mem_singleton.1 hfd]
        exact List.ne_of_not_mem_cons hnew
  | acceptFailed n hpc =>
      refine hinv.kept rfl (Or.inl rfl) ?_ ?_ ?_ ?_
      · simp [Out.ofChild]
      · exact fun _ => Or.inr (Or.inl ⟨n, List.mem_append_right h List.mem_cons_self⟩)
      · intro _
        rw [hinv.fds (by rw [hpc]; exact Pc.noConfusion), hpc]
        rfl
      · exact fun fd hfd => nomatch hfd
  | forked pid sockfd hpc hlimit => exact hinv.childForked hpc hlimit
  | forkFailed sockfd hpc =>
      refine hinv.kept rfl (Or.inl rfl) ?_ ?_ ?_ ?_
      · simp [Out.ofChild]
      · exact fun hfailed => nomatch hfailed
      · exact fun hexited => absurd rfl hexited
      · exact fun fd hfd => nomatch hfd

end Server

/-! ## Runs -/

/-- A child is reported once it has ended, and not again. -/
def Reported (pre : List Out) : Out → Prop
  | .terminated pid status => pre.count (.terminated pid status) < pre.count (.ended pid status)
  | _ => True

/-- Why a server exits. -/
def Exits (pre : List Out) : Out → Prop
  | .exit => .forkFailed ∈ pre ∨ Spoilt pre
  | _ => True

namespace Server
variable {st : Style} {limit : Nat} {s s' : Server} {h out : List Out} {listenfd : Fd}

theorem Inv.reported_move (hinv : s.Inv st limit listenfd h) (hm : Move st limit s s' out) :
    Every (fun pre o => Reported (h ++ pre) o) out := by
  have hquiet : (∀ o ∈ out, o.isTerminated = false) → Every (fun pre o => Reported (h ++ pre) o) out := by
    intro hout pre o post heq
    have ho := hout o (by rw [heq]; exact List.mem_append_right pre List.mem_cons_self)
    cases o <;> trivial
  cases hm with
  | reap pid status hreaping hz =>
      rw [every_singleton, List.append_nil]
      have hreported := hinv.reported pid status
      have hpos := List.count_pos_iff.2 hz
      change h.count _ < h.count _
      omega
  | handlerReturn hreaping hz =>
      apply hquiet
      unfold handlerReturn
      dsimp only
      split_ifs
      · simp [Out.isTerminated]
      · simp
  | test hpc =>
      apply hquiet
      unfold goto
      split_ifs
      · simp [Out.isTerminated]
      · simp
  | _ => exact hquiet (by simp [Out.isTerminated])

theorem Inv.exits_move (hst : st.failed .EINTR ≠ .exited) (hinv : s.Inv st limit listenfd h)
    (hm : Move st limit s s' out) : Every (fun pre o => Exits (h ++ pre) o) out := by
  have hquiet : (∀ o ∈ out, o ≠ .exit) → Every (fun pre o => Exits (h ++ pre) o) out := by
    intro hout pre o post heq
    have ho := hout o (by rw [heq]; exact List.mem_append_right pre List.mem_cons_self)
    cases o <;> trivial
  cases hm with
  | test hpc =>
      unfold goto
      split_ifs with hexited
      · rw [every_singleton, List.append_nil]
        rcases hinv.failed hpc with herrno | hspoilt
        · rw [herrno] at hexited
          exact absurd hexited hst
        · exact Or.inr hspoilt
      · exact every_nil
  | forkFailed sockfd hpc =>
      rw [every_cons, every_singleton]
      exact ⟨trivial, Or.inl (List.mem_append_right h List.mem_cons_self)⟩
  | handlerReturn hreaping hz =>
      apply hquiet
      unfold handlerReturn
      dsimp only
      split_ifs
      · simp
      · simp
  | _ => exact hquiet (by simp)

/-- What holds after a history. -/
structure Runs (st : Style) (limit : Nat) (listenfd : Fd) (h : List Out) (s : Server) : Prop where
  inv : s.Inv st limit listenfd h
  reported : Every Reported h
  exits : st.failed .EINTR ≠ .exited → Every Exits h

theorem runs (st : Style) (limit : Nat) (listenfd : Fd) (inputs : List Input) :
    ((server st limit).run (init listenfd) inputs).1.Runs st limit listenfd
      ((server st limit).run (init listenfd) inputs).2 := by
  refine Machine.run_inv (m := server st limit) (I := fun h s => s.Runs st limit listenfd h) ?_ inputs []
    (init listenfd) ⟨inv_init st limit listenfd, every_nil, fun _ => every_nil⟩
  intro h s i hr
  have hm := step_move st limit s i
  exact ⟨hr.inv.move hm, every_append.2 ⟨hr.reported, hr.inv.reported_move hm⟩,
    fun hst => every_append.2 ⟨hr.exits hst, hr.inv.exits_move hst hm⟩⟩

end Server

/-- **No child is lost.** However the children's ends fall together with each other and with the handler of `s_fork`, each
is reported once and after its end; while one has not been reported the signal is pending or the handler runs, and when
neither is the case all of them have been reported and there is no zombie. -/
theorem children_reported (limit : Nat) (listenfd : Fd) (inputs : List Input) :
    Every Reported ((server sFork limit).run (.init listenfd) inputs).2 ∧
    (((server sFork limit).run (.init listenfd) inputs).1.children.pending = false →
      ((server sFork limit).run (.init listenfd) inputs).1.reaping = false →
      ((server sFork limit).run (.init listenfd) inputs).1.children.zombies = [] ∧
      ∀ pid status, ((server sFork limit).run (.init listenfd) inputs).2.count (.terminated pid status) =
        ((server sFork limit).run (.init listenfd) inputs).2.count (.ended pid status)) := by
  have hr := Server.runs sFork limit listenfd inputs
  refine ⟨hr.reported, fun hpending hreaping => ?_⟩
  have hz : ((server sFork limit).run (.init listenfd) inputs).1.children.zombies = [] := by
    rcases hr.inv.awaited rfl with hz | hsignal | hhandler
    · exact hz
    · rw [hpending] at hsignal
      cases hsignal
    · rw [hreaping] at hhandler
      cases hhandler
  refine ⟨hz, fun pid status => ?_⟩
  have hreported := hr.inv.reported pid status
  rw [hz] at hreported
  exact hreported

/-- **What makes `s_fork` exit.** A signal alone does not: `fork` has failed, or `accept` has for another reason, or a
handler that ran between an interrupted `accept` and the test of `errno` has found no child left and so overwritten it.
Until then the server holds the listening socket and the connection it is about to pass on. -/
theorem server_exits (limit : Nat) (listenfd : Fd) (inputs : List Input) :
    Every Exits ((server sFork limit).run (.init listenfd) inputs).2 ∧
    (((server sFork limit).run (.init listenfd) inputs).1.pc ≠ .exited →
      ((server sFork limit).run (.init listenfd) inputs).1.fds =
        listenfd :: ((server sFork limit).run (.init listenfd) inputs).1.pc.sockfd) := by
  have hr := Server.runs sFork limit listenfd inputs
  exact ⟨hr.exits Pc.noConfusion, hr.inv.fds⟩

/-- Two clients that leave at the wrong moments. -/
example : ((server sFork 8).run (.init 3) [.go, .accept (.ok 4), .fork (some 100), .go, .go, .accept (.ok 4), .fork (some 101),
    .go, .go, .ends 100 0, .signal, .waitpid 100 0, .waitpid 0 0, .ends 101 0, .signal, .waitpid 101 0, .waitpid 0 0,
    .go]).1.pc = .exited := by
  decide

/-- A server that never waits has an entry of the process table for each child it has forked, and ends when there is
none left. -/
def AtMost (st : Style) (limit : Nat) (r : Server × List Out) : Prop :=
  r.2.countP Out.isForked = r.1.children.size ∧ r.2.countP Out.isForked ≤ limit ∧
    ∀ sockfd, r.1.pc = .fork sockfd → r.2.countP Out.isForked = limit →
      ∀ next, (r.1.step st limit (.fork next)).1.pc = .exited

theorem atMost (st : Style) (hst : st.handles = false) (limit : Nat) (listenfd : Fd) (inputs : List Input) :
    AtMost st limit ((server st limit).run (.init listenfd) inputs) := by
  have hinv := (Server.runs st limit listenfd inputs).inv
  obtain ⟨hreaping, -, hterminated⟩ := hinv.unhandled hst
  have hforked := hinv.forked
  rw [hterminated] at hforked
  refine ⟨hforked, hforked.le.trans hinv.size_le, fun sockfd hpc hlimit next => ?_⟩
  have hfull : limit ≤ ((server st limit).run (.init listenfd) inputs).1.children.size := by omega
  change (if _ then _ else _ : Server × List Out).1.pc = _
  rw [hreaping, if_neg Bool.false_ne_true]
  unfold Server.mainStep
  dsimp only
  rw [hpc]
  cases next with
  | none => rfl
  | some pid =>
      dsimp only
      rw [if_pos hfull]

/-- **`s_time_fork` and `inetd` run out of processes.** Whatever the clients do, each of the two forks at most as many
children in all its life as it may have processes, and exits with the next `fork`. -/
theorem serves_at_most (limit : Nat) (listenfd : Fd) (inputs : List Input) :
    AtMost sTimeFork limit ((server sTimeFork limit).run (.init listenfd) inputs) ∧
    AtMost inetd limit ((server inetd limit).run (.init listenfd) inputs) :=
  ⟨atMost sTimeFork rfl limit listenfd inputs, atMost inetd rfl limit listenfd inputs⟩

end SysSnippets.Tcp.Forking
