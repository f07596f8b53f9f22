import JurasOS.Arch.Delay
import JurasOS.Arch.Descriptors
import JurasOS.Arch.Fault
import JurasOS.Arch.Stubs
import JurasOS.Boot.Bookkeeping
import JurasOS.Boot.Info
import JurasOS.Boot.Ledger
import JurasOS.Boot.Locked
import JurasOS.Boot.Mapped
import JurasOS.Boot.Missing
import JurasOS.Boot.Null
import JurasOS.Boot.Order
import JurasOS.Boot.TableWalk
import JurasOS.Boot.TagList
import JurasOS.Boot.Total
import JurasOS.Boot.Walk
import JurasOS.Drivers.CommandList
import JurasOS.Drivers.Ports
import JurasOS.Drivers.Registers
import JurasOS.Drivers.Scan
import JurasOS.Drivers.Typing
import JurasOS.Heap.Exhaustion
import JurasOS.Heap.Granularity
import JurasOS.Heap.RoundTrip
import JurasOS.Heap.Rounding
import JurasOS.Libc.Compare
import JurasOS.Stdio.Readback
import JurasOS.Tty.Backspace
import JurasOS.Tty.Interrupt
import JurasOS.Tty.TabStops
