import Ignition.Devices.Alloc
import Ignition.Devices.BlkCapacity
import Ignition.Devices.Blit
import Ignition.Devices.GpuFence
import Ignition.Devices.Overflow
import Ignition.Devices.RestoreJson
import Ignition.Devices.SocketVmnet
import Ignition.Devices.Talk
import Ignition.Mcp.VsockClient
import Ignition.Vmm.Accesses
import Ignition.Vmm.BringUpLive
import Ignition.Vmm.CpuOn
import Ignition.Vmm.DirtyExact
import Ignition.Vmm.ExactlyOnce
import Ignition.Vmm.Coverage
import Ignition.Vmm.Generations
import Ignition.Vmm.MmioLoad
import Ignition.Vmm.ResetEntry
import Ignition.Vmm.ResetForgets
import Ignition.Vmm.Resources
import Ignition.Boot.Control
import Ignition.Boot.KeyboardGroup
import Ignition.Boot.Layout
import Ignition.Boot.NetFeed
import Ignition.Boot.ResetExact
import Ignition.Boot.Topology
import Ignition.FcApi.Launch
import Ignition.Mcp.Server
import Ignition.Mcp.ShellQuote
import Ignition.Sandbox.Profile
