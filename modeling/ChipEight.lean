import ChipEight.Main
import ChipEight.Proofs.Alignment
import ChipEight.Proofs.KeyWait
import ChipEight.Proofs.Footprint
import ChipEight.Proofs.Listing
import ChipEight.Proofs.Bounds
import ChipEight.Proofs.Repaint
import ChipEight.Proofs.Hexadecimal
import ChipEight.Proofs.Schedule
import ChipEight.Proofs.Playing
import ChipEight.Proofs.Nesting
import ChipEight.Proofs.Dialects
import ChipEight.Proofs.Exchange
import ChipEight.Proofs.Throws
import ChipEight.Proofs.Reloading
import ChipEight.Proofs.Confinement
import ChipEight.Proofs.Countdown
import ChipEight.Proofs.Mnemonics
import ChipEight.Proofs.Lossless
import ChipEight.Proofs.Toggles
import ChipEight.Proofs.Sprites
import ChipEight.Proofs.Drawing
import ChipEight.Proofs.Stamps
import ChipEight.Proofs.Outcomes
import ChipEight.Proofs.Arithmetic
import ChipEight.Proofs.Bytewise
import ChipEight.Proofs.Shares
import ChipEight.Proofs.Transfers
import ChipEight.Proofs.Blocks
import ChipEight.Proofs.Torus
import ChipEight.Proofs.Picture
