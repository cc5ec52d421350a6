import Zuzu.L1Memory.SlabRuns
import Zuzu.L1Memory.AsidRuns
import Zuzu.L1Memory.PageTableRefine
import Zuzu.L1Memory.HeapSizes
import Zuzu.L2Object.HandleTableInv
import Zuzu.L3Kernel.TaskIds
import Zuzu.L3Kernel.SpaceIds
import Zuzu.L3Kernel.SleepWheelRuns
import Zuzu.L3Kernel.EventBits
import Zuzu.L3Kernel.Release
import Zuzu.L3Kernel.Dma
import Zuzu.L4Loader.LoadExact
import Zuzu.L5Net.TcpStream
import Zuzu.L5Net.DhcpTime
import Zuzu.L5Net.Timer
import Zuzu.L5Net.SessionIso
import Zuzu.L5Net.PacketRing
import Zuzu.L5Net.ArpRuns
import Zuzu.L5Net.Listener
import Zuzu.L5Net.TcpOpen
import Zuzu.L5Net.TcpFlow
import Zuzu.L5Net.Ip
import Zuzu.L5Net.Rate
import Zuzu.L6User.Zone
import Zuzu.L6User.CondVar
import Zuzu.L6User.UdpSock
import Zuzu.L6User.RootSvc
import Zuzu.L6User.ShellPath
import Zuzu.L6User.Stdlib
import Zuzu.L6User.Arena
import Zuzu.L6User.FatTime
