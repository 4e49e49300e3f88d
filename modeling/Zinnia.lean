import Zinnia.Memory.Virt.Allocator.Properties
import Zinnia.Memory.Virt.Shootdown.Properties
import Zinnia.Syscall.Memory.Shootdown
import Zinnia.Syscall.Futex
import Zinnia.Memory.Cache.Races
import Zinnia.Memory.Iovec.Properties
import Zinnia.Memory.Writeback.Properties
import Zinnia.Vfs.File.Properties
import Zinnia.Memory.Boot.Properties
import Zinnia.Memory.Slab.Properties
import Zinnia.Memory.Virt.Mmu.Properties
import Zinnia.Drivers.Ext2.Sectors
import Zinnia.Drivers.Ext2.Mount.Properties
import Zinnia.Drivers.Ext2.Directory.Properties
import Zinnia.Device.Net.Tcp.Stream
import Zinnia.Device.Net.Tcp.Drop
import Zinnia.Device.Net.Tcp.Senders
import Zinnia.Device.Net.Tcp.Runs
import Zinnia.Device.Net.Local.Messages
import Zinnia.Device.Net.Local.Control
import Zinnia.Sched.RunQueue
import Zinnia.Process.Groups
import Zinnia.Process.Signal.Stop
import Zinnia.Process.Signal.Frame
import Zinnia.Vfs.Epoll
import Zinnia.Vfs.Path
import Zinnia.Vfs.Pipe
import Zinnia.Drivers.Xhci.Transfer
import Zinnia.Device.Tty.Pty
import Zinnia.Drivers.Ext2.Regular.Cache
import Zinnia.Drivers.Ext2.Regular.Properties
import Zinnia.Drivers.Xhci.Ring
