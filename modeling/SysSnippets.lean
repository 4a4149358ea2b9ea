import SysSnippets.Lib.Machine
import SysSnippets.Lib.Text
import SysSnippets.Drm.Libdrm
import SysSnippets.Drm.Proto
import SysSnippets.Drm.Server
import SysSnippets.Drm.ServerRuns
import SysSnippets.Drm.Commands
import SysSnippets.Drm.Replies
import SysSnippets.Drm.Survival
import SysSnippets.Drm.Isolation
import SysSnippets.Lib.SaveRestore
import SysSnippets.Drm.Restore
import SysSnippets.Drm.Codec
import SysSnippets.Drm.Client
import SysSnippets.Drm.Lockstep
import SysSnippets.Gst.Sink
import SysSnippets.Lib.Ledger
import SysSnippets.Gst.Objects
import SysSnippets.Gst.Lifecycle
import SysSnippets.Gst.Frame
import SysSnippets.Gst.DoubleBuffer
import SysSnippets.Gst.Caps
import SysSnippets.Gst.Gles2
import SysSnippets.Gst.Handoff
import SysSnippets.Gst.ImageBounds
import SysSnippets.Tcp.EventLoop
import SysSnippets.Tcp.Agree
import SysSnippets.Tcp.Blocking
import SysSnippets.Tcp.Client
import SysSnippets.Tcp.Mio
import SysSnippets.DrmTests.PageFlip
import SysSnippets.Sem.ExecFd
import SysSnippets.Tun.Tunnel
import SysSnippets.Drm.Autoconf
import SysSnippets.Pty.Minicom
import SysSnippets.Rtnetlink.EthMonitor
import SysSnippets.Lib.Lines
import SysSnippets.Tcp.Overflow
import SysSnippets.Lib.Tokens
import SysSnippets.PipeIpc.Pipe
import SysSnippets.Tcp.PollTable
import SysSnippets.Drm.ClientExit
import SysSnippets.Drm.Failed
import SysSnippets.Drm.Incomplete
import SysSnippets.Lib.Connections
import SysSnippets.Servers.Connections
import SysSnippets.Drm.Lookup
import SysSnippets.Lib.Loop
import SysSnippets.Rtnetlink.MessageWalk
import SysSnippets.Inotify.FsNotify
import SysSnippets.Gst.StridedCopy
import SysSnippets.Multicast.Client
import SysSnippets.Multicast.RustClient
import SysSnippets.Lib.Hex
import SysSnippets.Multicast.Server
import SysSnippets.Netdevice.RawSock
import SysSnippets.Lib.Reader
import SysSnippets.Tcp.GoClient
import SysSnippets.Lib.Refill
import SysSnippets.Udp.GoReceivers
import SysSnippets.Lib.Cpu
import SysSnippets.Lib.Fibonacci
import SysSnippets.Asm.Riscv
import SysSnippets.Asm.Mips
import SysSnippets.Asm.Fib
import SysSnippets.Wiid.Accelerometer
import SysSnippets.Fbdev.Fill
import SysSnippets.DrmTests.Bitmap
import SysSnippets.Lib.Barrier
import SysSnippets.Lib.Children
import SysSnippets.Lib.Progress
import SysSnippets.NetlinkIpc.Packets
import SysSnippets.NetlinkIpc.Talk
import SysSnippets.Pthread.Barriers
import SysSnippets.Pthread.Finish
import SysSnippets.Tcp.Forking
import SysSnippets.Lib.Datagrams
import SysSnippets.Lib.Timer
import SysSnippets.Tcp.LineClients
import SysSnippets.Timers.Timerfd
import SysSnippets.Udp.Messages
import SysSnippets.Udp.Reports
import SysSnippets.DrmTests.Buffers
import SysSnippets.DrmTests.Cleanup
import SysSnippets.DrmTests.Info
import SysSnippets.Multicast.Group
