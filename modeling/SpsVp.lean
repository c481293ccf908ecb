import SpsVp.Gdb.RunLength
import SpsVp.Gdb.ThreadInfo
import SpsVp.Platform.AbstractUart
import SpsVp.Platform.CanReceive
import SpsVp.Platform.CanRegisters
import SpsVp.Platform.Clint
import SpsVp.Platform.DebugMemory
import SpsVp.Platform.ElfImage
import SpsVp.Platform.GpioEdges
import SpsVp.Platform.GpioPins
import SpsVp.Platform.Oled
import SpsVp.Platform.PlicRun
import SpsVp.Platform.RealClint
import SpsVp.Rv32.Amo
import SpsVp.Rv32.DeviceLoad
import SpsVp.Rv32.Encoding
import SpsVp.Rv32.Fetch
import SpsVp.Rv32.Harts
import SpsVp.Rv32.Interrupt
import SpsVp.Rv32.Privilege
import SpsVp.Rv32.Progress
import SpsVp.Rv32.Syscalls
import SpsVp.Rv32.Unimplemented
import SpsVp.Rv32.Wiring
import SpsVp.Symex.Bencode
import SpsVp.Symex.Dump
import SpsVp.Symex.Paths
import SpsVp.Symex.Restarts
import SpsVp.Symex.Stopping
