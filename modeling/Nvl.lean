import Nvl.Gni.MemHandle
import Nvl.Datagram.Counter
import Nvl.Datagram.Network
import Nvl.Xmem.Heap
import Nvl.Xmem.Lookup
import Nvl.StaticLink.Allgather
import Nvl.StaticLink.Collective
import Nvl.StaticLink.Gathers
import Nvl.StaticLink.Instance
import Nvl.StaticLink.Isolation
import Nvl.StaticLink.Posts
import Nvl.StaticLink.Provenance
import Nvl.StaticLink.Transparency
import Nvl.Proxy.Windows
import Nvl.Guest.Records
import Nvl.NoForward.Register
import Nvl.Completion.Events
import Nvl.Completion.Table
import Nvl.Host.Hypercalls
import Nvl.Host.Kgni
import Nvl.Host.OsDebug
import Nvl.Jobs.Barrier
import Nvl.Jobs.Driver
import Nvl.Preload.Interchange
import Nvl.Preload.Routing
import Nvl.Preload.Segments
