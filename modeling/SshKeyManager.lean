import SshKeyManager.Text
import SshKeyManager.Key
import SshKeyManager.Prog
import SshKeyManager.Models
import SshKeyManager.Client
import SshKeyManager.Hosts
import SshKeyManager.Server
import SshKeyManager.Middleware
import SshKeyManager.Routes
import SshKeyManager.Pages
import SshKeyManager.App
