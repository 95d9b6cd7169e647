import AwaOS.Acpi.Bounds
import AwaOS.Acpi.Impl
import AwaOS.Acpi.Ioapic
import AwaOS.Acpi.Routing
import AwaOS.Acpi.Rsdp
import AwaOS.Acpi.Walk
import AwaOS.Boot.AddressSpace
import AwaOS.Boot.Available
import AwaOS.Boot.Booted
import AwaOS.Boot.InitPage
import AwaOS.Boot.KernelMapping
import AwaOS.Boot.LockMemory
import AwaOS.Boot.LockedPages
import AwaOS.Boot.MultibootInfo
import AwaOS.Boot.PageTables
import AwaOS.Boot.Paging
import AwaOS.Boot.Reserved
import AwaOS.Boot.Runtime
import AwaOS.Boot.SaveInfo
import AwaOS.Boot.SetupMemory
import AwaOS.Boot.UndoLocking
import AwaOS.Boot.UnlockMemory
import AwaOS.Descriptor.Encoders
import AwaOS.Descriptor.Impl
import AwaOS.Descriptor.Init
import AwaOS.Descriptor.Layout
import AwaOS.Heap.Backed
import AwaOS.Heap.Break
import AwaOS.Heap.Calloc
import AwaOS.Heap.Canonical
import AwaOS.Heap.FirstFit
import AwaOS.Heap.Growth
import AwaOS.Heap.Impl
import AwaOS.Heap.Layout
import AwaOS.Heap.Lemmas.Backed
import AwaOS.Heap.Lemmas.Coalesce
import AwaOS.Heap.Lemmas.Confined
import AwaOS.Heap.Lemmas.Grow
import AwaOS.Heap.Lemmas.Init
import AwaOS.Heap.Lemmas.Live
import AwaOS.Heap.Lemmas.Malloc
import AwaOS.Heap.Lemmas.Mapped
import AwaOS.Heap.Lemmas.Place
import AwaOS.Heap.Lemmas.Supply
import AwaOS.Heap.Run
import AwaOS.Heap.Sharing
import AwaOS.Heap.Sizes
import AwaOS.Heap.Walk
import AwaOS.Interrupt.Dispatch
import AwaOS.Interrupt.Impl
import AwaOS.Interrupt.Path
import AwaOS.Interrupt.Wrapper
import AwaOS.Klibc.Digits
import AwaOS.Klibc.Itoa
import AwaOS.Klibc.Mem
import AwaOS.Klibc.Numeral
import AwaOS.Klibc.RoundTrip
import AwaOS.Klibc.Sprintf.Bounded
import AwaOS.Klibc.Sprintf.Directive
import AwaOS.Klibc.Sprintf.Ends
import AwaOS.Klibc.Sprintf.Impl
import AwaOS.Klibc.Sprintf.Law
import AwaOS.Klibc.Sprintf.Layout
import AwaOS.Klibc.Sprintf.Limits
import AwaOS.Klibc.Sprintf.Numbers
import AwaOS.Klibc.Sprintf.Safe
import AwaOS.Klibc.Sprintf.Text
import AwaOS.Klibc.String
import AwaOS.Klibc.Strlen
import AwaOS.Klibc.Strncpy
import AwaOS.Lib.Align
import AwaOS.Lib.BitField
import AwaOS.Lib.Bitmap
import AwaOS.Lib.ByteMemory
import AwaOS.Lib.Circular
import AwaOS.Lib.Cut
import AwaOS.Lib.LastWriter
import AwaOS.Lib.LoggedMemory
import AwaOS.Lib.Ownership
import AwaOS.Lib.Sharing
import AwaOS.Lib.StateMonad
import AwaOS.Lib.Walk
import AwaOS.Lib.X86
import AwaOS.Llist.Impl
import AwaOS.Llist.Lemmas
import AwaOS.Llist.Run
import AwaOS.Page.Basic
import AwaOS.Page.Lemmas
import AwaOS.Pmm.Chunk
import AwaOS.Pmm.Complete
import AwaOS.Pmm.Impl
import AwaOS.Pmm.Lemmas.Alloc
import AwaOS.Pmm.Lemmas.Basic
import AwaOS.Pmm.Lemmas.Mark
import AwaOS.Pmm.Loop
import AwaOS.Pmm.RoundTrip
import AwaOS.Pmm.Run
import AwaOS.Pmm.Supply
import AwaOS.Rtc.Decode
import AwaOS.Rtc.Device
import AwaOS.Rtc.Impl
import AwaOS.Rtc.Tearing
import AwaOS.Timer.Calibration
import AwaOS.Timer.Impl
import AwaOS.Timer.Invariant
import AwaOS.Timer.Run
import AwaOS.Timer.Schedule
import AwaOS.Timer.Seconds
import AwaOS.Timer.Steps
import AwaOS.Tty.Attributes
import AwaOS.Tty.Console
import AwaOS.Tty.Impl
import AwaOS.Tty.Lemmas
import AwaOS.Tty.Run
import AwaOS.Tty.Screen
import AwaOS.Vmm.AllocFailure
import AwaOS.Vmm.AllocPages
import AwaOS.Vmm.Entries
import AwaOS.Vmm.FirstFree
import AwaOS.Vmm.ForcedMapping
import AwaOS.Vmm.Impl
import AwaOS.Vmm.Lemmas.Frames
import AwaOS.Vmm.Lemmas.MapInternal
import AwaOS.Vmm.Lemmas.MapPage
import AwaOS.Vmm.Lemmas.Tables
import AwaOS.Vmm.Lemmas.Window
import AwaOS.Vmm.Machine
import AwaOS.Vmm.NoTrace
import AwaOS.Vmm.Orphans
import AwaOS.Vmm.Ownership
import AwaOS.Vmm.Range
import AwaOS.Vmm.RecursiveSlot
import AwaOS.Vmm.Refinement
import AwaOS.Vmm.Rights
import AwaOS.Vmm.Search
import AwaOS.Vmm.SharedAlloc
import AwaOS.Vmm.Sharing
import AwaOS.Vmm.UnmapEach
