import Jos.Lib.Prog
import Jos.Lib.Chain
import Jos.Lib.RefCount
import Jos.Lib.RefPool
import Jos.Mmu
import Jos.Machine
import Jos.Pmap
import Jos.Env
import Jos.Load
import Jos.Boot
import Jos.Access
import Jos.PmapRun
import Jos.PmapCases
import Jos.Tables
import Jos.Invariant
import Jos.PmapSpec
import Jos.EnvSpec
import Jos.EnvFree
import Jos.Unmapped
import Jos.Tlb
import Jos.EnvId
import Jos.EnvTable
import Jos.EnvRuns
import Jos.SelfTest
import Jos.Lib.Bump
import Jos.BootAlloc
import Jos.PageInit
import Jos.PhysPages
import Jos.Lib.Segments
import Jos.Relinking
import Jos.Lib.Ring
import Jos.Console
import Jos.ConsoleInput
import Jos.Printfmt
import Jos.PrintfmtRuns
import Jos.Printf
import Jos.Kdebug
import Jos.StabSearch
import Jos.KdebugReads
import Jos.MemRuns
import Jos.FreshKernel
import Jos.Lib.Radix
import Jos.Translation
import Jos.InsertOne
import Jos.MapRegion
import Jos.RegionAlloc
import Jos.RefWrap
import Jos.UserRuns
import Jos.Uvpt
import Jos.EnvLife
import Jos.Ownership
import Jos.Snprintf
import Jos.StabFound
import Jos.StabRegion
import Jos.Backtrace
import Jos.DoubleFree
import Jos.Lib.Overlay
import Jos.Bootmain
import Jos.Readseg
import Jos.BootImage
import Jos.Lib.Numeral
import Jos.Strtol
import Jos.Lib.BlockCopy
import Jos.Memmove
import Jos.NumberGrammar
import Jos.PrintNum
import Jos.Cputs
import Jos.Readline
import Jos.ConsoleOverflow
import Jos.Lib.Terminal
import Jos.CgaScreen
import Jos.Keyboard
import Jos.Lib.Words
import Jos.Runcmd
import Jos.Directives
import Jos.NumberLayout
import Jos.StringLayout
import Jos.Lib.Batches
import Jos.UserPrint
import Jos.IntOps
import Jos.DirectiveOps
import Jos.FormatArith
import Jos.Strings
import Jos.GivenPages
import Jos.LoadRuns
import Jos.LoadSegments
import Jos.EnvCreate
import Jos.LoadReturns
import Jos.LoadImage
import Jos.LoadIcode
import Jos.Leftovers
import Jos.EnvRestored
import Jos.Trap
import Jos.EnvLives
import Jos.Isolation
import Jos.Lib.Simulation
import Jos.CheckFreeList
import Jos.Sandbox
import Jos.SandboxRuns
import Jos.CheckPage
import Jos.BootPool
import Jos.Regions
import Jos.MemInitMap
import Jos.CheckKernPgdir
import Jos.CheckInstalled
import Jos.MemInit
import Jos.KernelBoot
import Jos.KernelSpace
import Jos.PowerOn
import Jos.FromDisk
