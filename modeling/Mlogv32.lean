import Mlogv32.Build.Theorems.Config
import Mlogv32.Build.Theorems.Instructions
import Mlogv32.Build.Theorems.Layout
import Mlogv32.Cpu.Controller
import Mlogv32.Debugger.Theorems.Translate
import Mlogv32.Display.Theorems.Scrolling
import Mlogv32.Cpu.Lemmas.Effect
import Mlogv32.Cpu.Theorems.Amo
import Mlogv32.Cpu.Theorems.Coherence
import Mlogv32.Cpu.Theorems.Csr
import Mlogv32.Cpu.Theorems.CsrState
import Mlogv32.Cpu.Theorems.Cursor
import Mlogv32.Cpu.Theorems.Decode
import Mlogv32.Cpu.Theorems.Icache
import Mlogv32.Cpu.Theorems.Integer
import Mlogv32.Cpu.Theorems.Interrupt
import Mlogv32.Cpu.Theorems.Isolation
import Mlogv32.Cpu.Theorems.Levels
import Mlogv32.Cpu.Theorems.Memory
import Mlogv32.Cpu.Theorems.Mlogsys
import Mlogv32.Cpu.Theorems.Pause
import Mlogv32.Cpu.Theorems.Privilege
import Mlogv32.Cpu.Theorems.Refinement
import Mlogv32.Cpu.Theorems.Reservation
import Mlogv32.Cpu.Theorems.Retire
import Mlogv32.Cpu.Theorems.Return
import Mlogv32.Cpu.Theorems.Store
import Mlogv32.Cpu.Theorems.Timer
import Mlogv32.Cpu.Theorems.Translate
import Mlogv32.Cpu.Theorems.Trap
import Mlogv32.Cpu.Theorems.Width
import Mlogv32.Logic.Reachable
import Mlogv32.Mod.Theorems.Dump
import Mlogv32.Mod.Theorems.Rom
import Mlogv32.Parser.Theorems.Check
import Mlogv32.Rust.Theorems.Embassy
import Mlogv32.Rust.Theorems.Io
import Mlogv32.Uart.Lemmas.Alone
import Mlogv32.Uart.Theorems.Fifo
import Mlogv32.Uart.Theorems.Interrupts
import Mlogv32.Scripts.Theorems.RamProc
import Mlogv32.Template.Theorems.Locals
import Mlogv32.Uart.Theorems.Detectors
import Mlogv32.Uart.Theorems.Producers
import Mlogv32.Uart.Theorems.Reset
import Mlogv32.Parser.Lemmas.Lexer
import Mlogv32.Parser.Lemmas.Text
import Mlogv32.Parser.Labels
import Mlogv32.Parser.Lemmas.Build
import Mlogv32.Parser.Lemmas.Quiet
import Mlogv32.Parser.Theorems.Resolve
import Mlogv32.Workers.Theorems.HandOff
